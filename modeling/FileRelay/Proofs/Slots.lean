import FileRelay.Proofs.Deadlines
import FileRelay.Proofs.Telling
import FileRelay.Proofs.Unmount

/-!
# Slots and timers

A call that creates a request fills a slot, by which the request may be aborted however long
afterwards, and a timer may be armed for the request.  Both may outlive it, and its id may be given
to another request by then.  But they name the request by its key, and the serial number in a key is
never given twice.  So a slot finds the request that its call created as long as this is
outstanding, and nothing from then on; the same goes for a timer.

Serial numbers are counted here without end.  In a run in which they stay below `2 ^ 64`, numbers of
64 bits tell requests apart as well.
-/

namespace FileRelay

/-- The outstanding request of an id, if its serial number looks as given in 64 bits. -/
def Ledger.findWord? (ledger : Ledger) (id : RequestId) (serial : UInt64) : Option Pending :=
  (ledger.find? id).filter fun p => UInt64.ofNat p.serial = serial

namespace State

variable {s₀ s t u v w x y : State} {task : Task} {rest : List Task} {key : RequestKey}
  {p q : Pending} {ending : Ending} {steps : List State} {call : Call} {self : RequestId}
  {slot : Nat}

/-! ## Where a request comes from -/

/-- A request is registered by one step only, and no two requests have the same key. -/
theorem Course.born_once {task' : Task} (course : Course s₀ steps u) (start : Start s₀)
    (hx : x ∈ steps) (hy : y ∈ steps) (first : x.Bears v task p) (second : y.Bears w task' q)
    (same : p.key = q.key) : x = y := by
  -- The serial number of what is registered later is greater.
  have earlier : ∀ {x y v w : State} {task task' : Task} {p q : Pending}, x ∈ steps →
      x.Bears v task p → y.Bears w task' q → p.key = q.key →
      ¬ ∃ z, x.step = some z ∧ Reaches z y := by
    rintro x y v w task task' p q hx first second same ⟨z, step, later⟩
    obtain rfl := Option.some.inj (first.step.symm.trans step)
    obtain ⟨-, -, -, toX, -⟩ := course.reaches_of_mem hx
    have saneX := toX.sane start.sane
    have saneZ := first.next.sane saneX
    have le := later.nextSerial_le saneZ
    obtain ⟨serial, next⟩ := first.serial saneX
    have serial' := (second.serial (later.sane saneZ)).1
    have : p.serial = q.serial := congrArg RequestKey.serial same
    omega
  rcases course.compare hx hy with same' | before | after
  · exact same'
  · exact (earlier hx first second same before).elim
  · exact (earlier hy second first same.symm after).elim

/-- Slots, and calls that are to fill one, go back to steps that registered a request. -/
structure Issued (steps : List State) (u : State) : Prop where
  due : ∀ call key, .grant call key ∈ u.agenda → ∃ before v after w self p,
    steps = before ++ v :: after ∧ v.Bears w (.issue call self) p ∧ p.key = key
  filled : ∀ slot key, u.slots[slot]? = some key → ∃ before v between g after w call self p rest,
    steps = before ++ v :: (between ++ g :: after) ∧ v.Bears w (.issue call self) p ∧ p.key = key ∧
    g.agenda = .grant call key :: rest ∧ g.slots.length = slot

theorem Issued.step (h : Issued steps u) (hs : u.Sane) (fate : ∀ key, u.Fate key)
    (step : u.step = some t) (fair : ¬ u.Trespasses) : Issued (steps ++ [u]) t := by
  obtain ⟨task, rest, ha, tidings⟩ := exists_tidings step
  have old : ∀ call key, .grant call key ∈ u.agenda → ∃ before v after w self p,
      steps ++ [u] = before ++ v :: after ∧ v.Bears w (.issue call self) p ∧ p.key = key := by
    intro call key mem
    obtain ⟨before, v, after, w, self, p, rfl, bears, own⟩ := h.due call key mem
    exact ⟨before, v, after ++ [u], w, self, p, by simp, bears, own⟩
  constructor
  · intro call key mem
    generalize hx : Task.grant call key = x at mem
    rcases tidings.utters mem with mem | mute | utters
    · exact old call key (hx ▸ ha ▸ List.mem_cons_of_mem _ mem)
    · subst hx
      cases mute
    · cases utters with
      | tellOn | tellNew | tell | announce => cases hx
      | @grant call' self p named enters =>
        cases hx
        subst named
        exact ⟨steps, u, [], t, self, p, rfl,
          enters.bears (.work step fair) hs (fate p.key) ha step, rfl⟩
  · intro slot key filled
    have kept : u.slots[slot]? = some key → ∃ before v between g after w call self p rest,
        steps ++ [u] = before ++ v :: (between ++ g :: after) ∧ v.Bears w (.issue call self) p ∧
        p.key = key ∧ g.agenda = .grant call key :: rest ∧ g.slots.length = slot := by
      intro filled
      obtain ⟨before, v, between, g, after, w, call, self, p, rest, rfl, law⟩ :=
        h.filled slot key filled
      exact ⟨before, v, between, g, after ++ [u], w, call, self, p, rest, by simp, law⟩
    rcases tidings.slots with same | ⟨call, key', rfl, slots⟩
    · rw [same] at filled
      exact kept filled
    · rw [slots, List.getElem?_append] at filled
      split at filled
      · exact kept filled
      · -- The slot is the one that this step fills.
        rename_i beyond
        obtain ⟨inside, same⟩ := List.getElem?_eq_some_iff.1 filled
        have last : u.slots.length = slot := by
          have : slot - u.slots.length < 1 := inside
          have : ¬ slot < u.slots.length := beyond
          omega
        have own : key' = key := by
          rw [List.getElem_singleton] at same
          exact same
        subst own
        obtain ⟨before, v, after, w, self, p, rfl, bears, own⟩ :=
          h.due call key' (ha ▸ List.mem_cons_self)
        exact ⟨before, v, after, u, [], w, call, self, p, rest, by simp, bears, own, ha, last⟩

theorem Course.issued (start : Start s₀) (course : Course s₀ steps u) : Issued steps u := by
  induction course with
  | start =>
    cases start <;>
      exact ⟨fun _ _ mem => (List.not_mem_nil mem).elim, fun _ _ none => by cases none⟩
  | work course step fair ih =>
    exact ih.step (course.sane start) (course.fate start) step fair
  | call _ call self ih =>
    refine ⟨fun call key mem => ?_, ih.filled⟩
    rcases List.mem_cons.1 mem with other | mem
    · cases other
    · exact ih.due call key mem
  | rewind _ n ih => exact ⟨ih.due, ih.filled⟩

/-- A timer is armed for a request that a step of the run has registered. -/
theorem Course.armed {timer : Timer} (start : Start s₀) (course : Course s₀ steps u)
    (mem : timer ∈ u.timers.armed) :
    ∃ v ∈ steps, ∃ w task p, v.Bears w task p ∧ p.key = timer.request := by
  induction course with
  | start => cases start <;> cases mem
  | @work steps x y course step fair ih =>
    have sane := course.sane start
    obtain ⟨task, rest, ha, tick⟩ := sane.exists_tick step
    rcases tick.rewound.armed mem with before | ⟨p, hp, own⟩
    · obtain ⟨v, hv, law⟩ := ih before
      exact ⟨v, List.mem_append_left _ hv, law⟩
    · have course : Course s₀ (steps ++ [x]) y := course.work step fair
      have shows : y.trace p.key ≠ {} := by
        rw [((course.fate start p.key).of_mem hp).2]
        simp
      obtain ⟨before, v, after, w, task, q, cut, bears, same, -⟩ :=
        course.exists_bears start shows
      exact ⟨v, by simp [cut], w, task, q, bears, same.trans own⟩
  | call _ _ _ ih => exact ih mem
  | rewind _ _ ih => exact ih mem

/-! ## Looking a request up -/

/-- A request that was registered is outstanding as long as its manager is there and no step has
ended it. -/
theorem Course.outstanding_iff (start : Start s₀) (reached : Reaches s₀ v)
    (bears : v.Bears w task p) (course : Course w steps u) :
    (u.ledger.findExact? p.key).isSome ↔
      u.managerAlive ∧ ∀ q ending, ¬ EndedIn steps p q ending := by
  have toW := reached.tail bears.next
  have sane := toW.sane start.sane
  have fate : w.Fate p.key := toW.fate start.sane (start.fate p.key)
  have known := bears.known (reached.sane start.sane)
  constructor
  · intro outstanding
    obtain ⟨r, found⟩ := Option.isSome_iff_exists.1 outstanding
    have mem := (mem_of_findExact? found).1
    refine ⟨(course.reaches.sane sane).upkeep.live (List.ne_nil_of_mem mem), ?_⟩
    intro q ending ended
    have gone := (course.settled_of_ended sane fate ended).outstanding_eq_nil
    rw [findExact?_eq, gone] at found
    cases found
  · rintro ⟨alive, unended⟩
    rcases course.life sane known bears.after with ⟨q, -, entry⟩ |
      ⟨before, x, after, y, q, ending, rfl, -, ends, -, same, -⟩ | ⟨-, gone, -⟩
    · rw [findExact?_eq, entry]
      rfl
    · exact (unended q ending ⟨same, x, by simp, y, ends⟩).elim
    · rw [gone] at alive
      cases alive

/-- As long as serial numbers stay below `2 ^ 64`, looking a request up by those of 64 bits finds
the very request. -/
theorem findWord?_eq (hs : u.Accounted) (fate : ∀ key, u.Fate key)
    (below : u.ledger.nextSerial ≤ UInt64.size) (known : key.serial < u.ledger.nextSerial) :
    u.ledger.findWord? key.id (UInt64.ofNat key.serial) = u.ledger.findExact? key := by
  have exact : ∀ p, u.ledger.findExact? key = some p →
      u.ledger.find? key.id = some p ∧ p.key = key := by
    intro p found
    have own := (mem_of_findExact? found).2
    rw [← own] at found ⊢
    exact ⟨hs.find?_of_findExact? found, rfl⟩
  rw [Ledger.findWord?]
  cases found : u.ledger.find? key.id with
  | none =>
    rw [Option.filter_none, eq_comm, Option.eq_none_iff_forall_ne_some]
    intro p found'
    rw [(exact p found').1] at found
    cases found
  | some p =>
    have mem := List.mem_of_find?_eq_some found
    have id : p.id = key.id := by simpa using List.find?_some found
    have known' : p.serial < u.ledger.nextSerial := ((fate p.key).of_mem mem).1
    by_cases same : p.serial = key.serial
    · have own : p.key = key := by rw [Pending.key, id, same]
      rw [Option.filter_some_pos (by simp [same]), ← own, findExact?_of_mem hs mem]
    · have differ : UInt64.ofNat p.serial ≠ UInt64.ofNat key.serial := by
        intro h
        have h := congrArg UInt64.toNat h
        rw [UInt64.toNat_ofNat_of_lt' (by omega), UInt64.toNat_ofNat_of_lt' (by omega)] at h
        exact same h
      rw [Option.filter_some_neg (by simpa using differ), eq_comm,
        Option.eq_none_iff_forall_ne_some]
      intro r found'
      obtain ⟨found', own⟩ := exact r found'
      rw [found', Option.some.injEq] at found
      rw [found] at own
      exact same (congrArg RequestKey.serial own)

/-! ## Ending a request by its slot or its timer -/

/-- A step ends a request in a given way, and leaves the others as they are. -/
structure EndsOnly (u y : State) (q : Pending) (ending : Ending) : Prop where
  ends : u.Ends y q ending
  others : y.ledger.entries = u.ledger.entries.filter (·.key ≠ q.key)

/-- A step that takes one request out of the ledger, as its task says, ends just that. -/
theorem EndsOnly.of_erase (hs : u.Sane) (next : Next u y) (step : u.step = some y)
    (ha : u.agenda = task :: rest) (ends : task.ending? u q = some ending)
    (found : u.ledger.findExact? q.key = some q) (ledger : y.ledger = u.ledger.erase q.id) :
    EndsOnly u y q ending := by
  have mem := (mem_of_findExact? found).1
  refine ⟨⟨next, step, ⟨task, rest, ha, ends⟩, found, ?_⟩, ?_⟩
  · rw [ledger, Ledger.findExact?, List.find?_eq_none]
    intro r hr
    have other : r.id ≠ q.id := by simpa using (List.mem_filter.1 hr).2
    simpa using fun own => other (congrArg RequestKey.id own)
  · rw [ledger, Ledger.erase]
    refine List.filter_congr fun r hr => ?_
    rw [decide_eq_decide, not_iff_not]
    constructor
    · intro id
      rw [hs.accounted.eq_of_id mem hr id]
    · exact fun own => congrArg RequestKey.id own

/-- Once the tasks are done that a step has set to finish a request, the callback of the request
has been invoked. -/
theorem Ends.called {back : List Task} {z : State} (h : u.Ends y q ending) (hs : u.Sane)
    (fate : u.Fate q.key) (agenda : y.agenda = .finish q ending :: back) (later : Reaches y z)
    (done : ∀ x ∈ z.agenda, x ∈ back) :
    ∃ event, z.callbacks q.key = [event] ∧ event.Reports q ending := by
  have settled := h.settled hs fate later
  have first : y.agenda = [] ++ .finish q ending :: back := agenda
  have clear := ((h.next.fate hs fate).not_mem_back first rfl).2
  obtain ⟨event, reports, paid⟩ := paid_of_clear settled fun x mem => clear x (done x mem)
  exact ⟨event, by rw [callbacks_eq, paid], reports⟩

theorem issue_abortSlot (filled : s.slots[slot]? = some key) (self : RequestId) :
    s.issue (.abortSlot slot) self = s.abort (.abortSlot slot) (s.ledger.findExact? key) := by
  simp only [State.issue, filled]

/-- What comes of aborting a request by its slot while it is outstanding. -/
structure AbortsOnly (u y : State) (q : Pending) (call : Call) (rest : List Task) : Prop
    extends EndsOnly u y q .aborted where
  /-- The call is to be answered as a success, after the request was finished. -/
  agenda : y.agenda = .finish q .aborted :: .leaveManager :: .answer call (.word .ok) :: rest
  /-- By the time of the answer, the callback has been invoked once, with that it was aborted. -/
  called : ∀ z, Reaches y z → z.agenda = .answer call (.word .ok) :: rest →
    ∃ event, z.callbacks q.key = [event] ∧ event.Reports q .aborted
  /-- The request is outstanding nevermore. -/
  gone : ∀ z, Reaches y z → z.ledger.findExact? q.key = none

theorem abortsOnly (hs : u.Sane) (fate : u.Fate key)
    (ha : u.agenda = .issue (.abortSlot slot) self :: rest) (filled : u.slots[slot]? = some key)
    (found : u.ledger.findExact? key = some q) :
    ∃ y, u.step = some y ∧ AbortsOnly u y q (.abortSlot slot) rest := by
  obtain ⟨mem, rfl⟩ := mem_of_findExact? found
  have filled' : ({ u with agenda := rest } : State).slots[slot]? = some q.key := filled
  have found' : ({ u with agenda := rest } : State).ledger.findExact? q.key = some q := found
  obtain ⟨y, hy⟩ : ∃ y, State.abort { u with agenda := rest } (.abortSlot slot) (some q) = y :=
    ⟨_, rfl⟩
  have step := step_of_agenda ha
  rw [State.perform, issue_abortSlot filled', found', hy] at step
  have agenda : y.agenda = .finish q .aborted :: .leaveManager ::
      .answer (.abortSlot slot) (.word .ok) :: rest := hy ▸ rfl
  have fair := not_trespasses ha (by simp)
  have next : Next u y := .work step fair
  have only : EndsOnly u y q .aborted :=
    .of_erase hs next step ha (by rw [Task.ending?, if_pos filled]) found (hy ▸ rfl)
  have known := Nat.lt_of_lt_of_le (fate.of_mem mem).1 (next.nextSerial_le hs)
  refine ⟨y, step, only, agenda, ?_, ?_⟩
  · intro z later answers
    refine only.ends.called hs fate agenda later fun x hx => ?_
    rw [answers] at hx
    exact List.mem_cons_of_mem _ hx
  · intro z later
    exact later.absent (next.sane hs) (next.fate hs fate) known only.ends.after

/-- A timer that expires ends the request it is armed for, or nothing. -/
theorem elapse_only (hs : u.Sane) {time : Nat} (ha : u.agenda = .elapse time :: rest)
    (step : u.step = some y) : y.ledger = u.ledger ∨ ∃ timer q, u.timers.due? time = some timer ∧
      u.ledger.findExact? timer.request = some q ∧ EndsOnly u y q .timedOut := by
  have fair := not_trespasses ha (by simp)
  have next : Next u y := .work step fair
  cases run : u.timersRun with
  | false =>
    rw [step_of_agenda ha, Option.some.injEq, State.perform, State.elapse,
      if_neg (by simp [run])] at step
    exact .inl (step ▸ rfl)
  | true =>
    cases elapsed_of_step run ha step with
    | arrive | idle => exact .inl rfl
    | @expire timer q due found =>
      have own : q.key = timer.request := (mem_of_findExact? found).2
      refine .inr ⟨timer, q, due, found, .of_erase hs next step ha ?_ (own ▸ found) rfl⟩
      rw [Task.ending?, if_pos]
      rw [own]
      exact congrArg (Option.map (·.request)) due

/-! ## The law of slots and timers -/

/-- What slots and timers have to do with requests, in a run that takes some steps. -/
structure SlotLaw (steps : List State) (u : State) : Prop where
  /-- A slot was filled as a call was answered whose step had registered the request. -/
  filled : ∀ slot key, u.slots[slot]? = some key → ∃ before v between g after w call self p rest,
    steps = before ++ v :: (between ++ g :: after) ∧ v.Bears w (.issue call self) p ∧ p.key = key ∧
    g.agenda = .grant call key :: rest ∧ g.slots.length = slot
  /-- A timer is armed for a request that a step registered. -/
  armed : ∀ timer ∈ u.timers.armed, ∃ v ∈ steps, ∃ w task p, v.Bears w task p ∧
    p.key = timer.request
  /-- No two requests have the same key. -/
  once : ∀ x ∈ steps, ∀ y ∈ steps, ∀ v w task task' p q, x.Bears v task p → y.Bears w task' q →
    p.key = q.key → x = y
  /-- A request that was registered is outstanding as long as its manager is there and no step has
  ended it. -/
  outstanding : ∀ before v after w task p, steps = before ++ v :: after → v.Bears w task p →
    ((u.ledger.findExact? p.key).isSome ↔
      u.managerAlive ∧ ∀ q ending, ¬ EndedIn after p q ending)
  /-- Serial numbers of 64 bits do, if no more requests are created than there are. -/
  word : u.ledger.nextSerial ≤ UInt64.size → ∀ v ∈ steps, ∀ w task p, v.Bears w task p →
    u.ledger.findWord? p.id (UInt64.ofNat p.serial) = u.ledger.findExact? p.key
  /-- Asking by slot is answered with whether the request of the slot is outstanding. -/
  pending : ∀ slot self rest key, u.agenda = .issue (.slotPending slot) self :: rest →
    u.slots[slot]? = some key → u.step = some (State.reply { u with agenda := rest }
      (.slotPending slot) (.flag (u.ledger.findExact? key).isSome))
  /-- If it is, aborting by slot ends just that request, and succeeds. -/
  aborts : ∀ slot self rest key q, u.agenda = .issue (.abortSlot slot) self :: rest →
    u.slots[slot]? = some key → u.ledger.findExact? key = some q →
    ∃ y, u.step = some y ∧ AbortsOnly u y q (.abortSlot slot) rest
  /-- If it is not, aborting by slot fails, and changes nothing. -/
  stale : ∀ slot self rest key, u.agenda = .issue (.abortSlot slot) self :: rest →
    u.slots[slot]? = some key → u.ledger.findExact? key = none →
    u.step = some (State.reply { u with agenda := rest } (.abortSlot slot) (.refused .notFound))
  /-- As the clock moves on, a step leaves the requests as they are, or a timer expires and the step
  ends just the request that it is armed for. -/
  expires : ∀ time rest y, u.agenda = .elapse time :: rest → u.step = some y →
    y.ledger = u.ledger ∨ ∃ timer q, u.timers.due? time = some timer ∧
      u.ledger.findExact? timer.request = some q ∧ EndsOnly u y q .timedOut

/-- For every run, however the counter of the id pool stands and whatever is called in the middle
of another call: a slot and a timer act on the request that they were made for as long as this is
outstanding, and from then on on nothing. -/
theorem slot_law (start : Start s₀) (course : Course s₀ steps u) : SlotLaw steps u := by
  have sane := course.sane start
  have fate := course.fate start
  constructor
  case filled => exact (course.issued start).filled
  case armed =>
    intro timer mem
    exact course.armed start mem
  case once =>
    intro x hx y hy v w task task' p q first second same
    exact course.born_once start hx hy first second same
  case outstanding =>
    intro before v after w task p cut bears
    subst cut
    obtain ⟨toV, -, fromW⟩ := course.split_of_step bears.step
    exact fromW.outstanding_iff start toV.reaches bears
  case word =>
    intro below v mem w task p bears
    obtain ⟨w', step, -, toV, fromW⟩ := course.reaches_of_mem mem
    obtain rfl := Option.some.inj (bears.step.symm.trans step)
    have saneV := toV.sane start.sane
    exact findWord?_eq sane.accounted fate below
      (Nat.lt_of_lt_of_le (bears.known saneV) (fromW.nextSerial_le (bears.next.sane saneV)))
  case pending =>
    intro slot self rest key ha filled
    rw [step_of_agenda ha, State.perform]
    simp only [State.issue, filled]
  case aborts =>
    intro slot self rest key q ha filled found
    exact abortsOnly sane (fate key) ha filled found
  case stale =>
    intro slot self rest key ha filled gone
    have filled' : ({ u with agenda := rest } : State).slots[slot]? = some key := filled
    have gone' : ({ u with agenda := rest } : State).ledger.findExact? key = none := gone
    rw [step_of_agenda ha, State.perform, issue_abortSlot filled', gone', State.abort]
  case expires =>
    intro time rest y ha step
    exact elapse_only sane ha step

/-- A request is aborted by its slot, and a later one is given its id.  The slot does not find the
later request. -/
theorem slot_law_of_reuse :
    ∃ (steps : List State) (u : State) (key : RequestKey), Course (ofManager true true) steps u ∧
      SlotLaw steps u ∧ u.agenda = [.issue (.abortSlot 0) ⟨0⟩] ∧ u.slots[0]? = some key ∧
      (u.ledger.find? key.id).isSome ∧
      u.step = some (State.reply { u with agenda := [] } (.abortSlot 0) (.refused .notFound)) := by
  obtain ⟨u, run, agenda, filled, gone, other⟩ : ∃ u, (ofManager true true).follow?
      (.call (.create .getMetadata none false none [] [] []) ⟨0⟩ :: List.replicate 3 .work ++
        .call (.abortSlot 0) ⟨0⟩ :: List.replicate 6 .work ++ .rewind 1 ::
        .call (.create .getMetadata none false none [] [] []) ⟨0⟩ :: List.replicate 3 .work ++
        [.call (.abortSlot 0) ⟨0⟩]) = some u ∧
      u.agenda = [.issue (.abortSlot 0) ⟨0⟩] ∧ u.slots[0]? = some ⟨⟨1⟩, 1⟩ ∧
      u.ledger.findExact? ⟨⟨1⟩, 1⟩ = none ∧ (u.ledger.find? ⟨1⟩).isSome :=
    ⟨_, rfl, rfl, rfl, rfl, rfl⟩
  have course := course_of_follow? run
  have law := slot_law (.manager true true _) course
  exact ⟨_, u, _, course, law, agenda, filled, other, law.stale 0 ⟨0⟩ [] _ agenda filled gone⟩

end State

end FileRelay
