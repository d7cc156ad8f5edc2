import FileRelay.Proofs.Shutdown
import FileRelay.Proofs.Streams

/-!
# Shutting all requests down

Shutting the request manager down takes all requests out of the ledger at once and frees
their ids, and only then tells the ones who wait, one after the other.  So whatever runs
meanwhile finds none of these requests, though it may find their ids given to others, and
may shut the manager down again.  Nothing of that matters for those that were outstanding:
their callbacks stand on the agenda one behind the other, each with all that it sets off in
front of the next, and the answer of the call comes behind the last of them.

The order in which they are told is that in which they were created.  It does not come from
their ids, which wrap around, but from the ledger, in which serial numbers only grow.
-/

namespace FileRelay.State

variable {s₀ b s t u v w x y : State} {task report : Task} {front rest : List Task}
  {key other : RequestKey} {p q : Pending} {ending : Ending} {steps before after : List State}

/-! ## The order of the ledger -/

/-- The outstanding requests stand in the order of their serial numbers, all of which have
been given. -/
structure Ordered (s : State) : Prop where
  increasing : s.ledger.entries.Pairwise (·.serial < ·.serial)
  given : ∀ p ∈ s.ledger.entries, p.serial < s.ledger.nextSerial

theorem Ordered.of_sublist (h : s.Ordered) (entries : t.ledger.entries.Sublist s.ledger.entries)
    (next : t.ledger.nextSerial = s.ledger.nextSerial) : t.Ordered where
  increasing := h.increasing.sublist entries
  given := fun p hp => next ▸ h.given p (entries.subset hp)

theorem Ordered.of_empty (empty : t.ledger.entries = []) : t.Ordered where
  increasing := by
    rw [empty]
    exact .nil
  given := by
    rw [empty]
    intro p hp
    cases hp

theorem Move.ordered (h : Move b task s t) (hs : s.Ordered) : t.Ordered := by
  cases h with
  | keep undisturbed =>
    obtain ⟨f, same, entries⟩ := undisturbed.entries
    refine ⟨?_, ?_⟩
    · rw [entries, List.pairwise_map]
      refine hs.increasing.imp fun {p q} lt => ?_
      rwa [(same p).serial, (same q).serial]
    · intro q hq
      rw [entries] at hq
      obtain ⟨p, hp, rfl⟩ := List.mem_map.1 hq
      rw [undisturbed.nextSerial, (same p).serial]
      exact hs.given p hp
  | @register p pool held owner up drawn serial =>
    have old : ∀ q ∈ s.ledger.entries.filter (·.id ≠ p.id), q.serial < p.serial :=
      fun q hq => serial ▸ hs.given q (List.mem_filter.1 hq).1
    refine ⟨?_, ?_⟩
    · refine List.pairwise_append.2 ⟨hs.increasing.filter _, List.pairwise_singleton _ _, ?_⟩
      intro q hq r hr
      rw [List.mem_singleton.1 hr]
      exact old q hq
    · intro q hq
      show q.serial < s.ledger.nextSerial + 1
      rcases List.mem_append.1 hq with hq | hq
      · exact Nat.lt_succ_of_lt (serial ▸ old q hq)
      · rw [List.mem_singleton.1 hq, serial]
        exact Nat.lt_succ_self _
  | pull => exact hs.of_sublist List.filter_sublist rfl
  | drain => exact .of_empty rfl
  | mark | add | remove | clear | share => exact hs.of_sublist (List.Sublist.refl _) rfl

theorem Change.ordered (h : Change b task s t) (hs : s.Ordered) : t.Ordered := by
  induction h with
  | refl => exact hs
  | tail _ move ih => exact move.ordered ih

theorem Effect.ordered (h : Effect b task s t) (hs : s.Ordered) : t.Ordered := by
  cases h with
  | change _ _ h => exact h.ordered hs
  | settle h pass k =>
    refine k.ordered ((h.ordered hs).of_sublist ?_ ?_) <;> rw [pass.frame.1]
  | keepManager | keepMount => exact hs
  | dropManager => exact .of_empty rfl
  | dropMount => exact ⟨hs.increasing, hs.given⟩

theorem Next.ordered (hn : Next s t) (hs : s.Sane) (h : s.Ordered) : t.Ordered := by
  rcases hn.cases hs with ⟨task, rest, -, -, e⟩ | ⟨ledger, -⟩
  · exact e.ordered ⟨h.increasing, h.given⟩
  · refine h.of_sublist ?_ ?_ <;> rw [ledger]

/-- In every run the ledger keeps the order of serial numbers. -/
theorem Course.ordered (start : Start s₀) (course : Course s₀ steps u) : u.Ordered := by
  refine course.reaches.invariant (P := Ordered) ?_ fun _ _ hu hn h =>
    hn.ordered (hu.sane start.sane) h
  cases start <;> exact .of_empty rfl

/-- One request was registered in an earlier step than another. -/
def Elder (steps : List State) (key other : RequestKey) : Prop :=
  ∃ v ∈ steps, ∃ v' ∈ steps, ∃ task w p task' w' q, v.Bears w task p ∧ p.key = key ∧
    v'.Bears w' task' q ∧ q.key = other ∧ Reaches w v'

/-- Serial numbers tell the order in which requests were registered. -/
theorem Course.elder (start : Start s₀) (course : Course s₀ steps u) (hp : p ∈ u.ledger.entries)
    (hq : q ∈ u.ledger.entries) (lt : p.serial < q.serial) : Elder steps p.key q.key := by
  have shows : ∀ r ∈ u.ledger.entries, u.trace r.key ≠ {} := by
    intro r hr none
    rw [((course.fate start r.key).of_mem hr).2] at none
    cases none
  obtain ⟨before, v, after, w, task, r, cut, first, hr, -, -⟩ :=
    course.exists_bears start (shows p hp)
  obtain ⟨before', v', after', w', task', r', cut', second, hr', -, -⟩ :=
    course.exists_bears start (shows q hq)
  have hv : v ∈ steps := by simp [cut]
  have hv' : v' ∈ steps := by simp [cut']
  have sane : ∀ {z}, z ∈ steps → z.Sane := by
    intro z hz
    obtain ⟨-, -, -, toZ, -⟩ := course.reaches_of_mem hz
    exact toZ.sane start.sane
  have lt' : r.serial < r'.serial := by
    rwa [show r.serial = p.serial from congrArg RequestKey.serial hr,
      show r'.serial = q.serial from congrArg RequestKey.serial hr']
  rw [(first.serial (sane hv)).1, (second.serial (sane hv')).1] at lt'
  refine ⟨v, hv, v', hv', task, w, r, task', w', r', first, hr, second, hr', ?_⟩
  rcases course.compare hv hv' with rfl | ⟨z, step, later⟩ | ⟨z, step, later⟩
  · exact (Nat.lt_irrefl _ lt').elim
  · obtain rfl := Option.some.inj (first.step.symm.trans step)
    exact later
  · -- The later step would have given the smaller number.
    obtain rfl := Option.some.inj (second.step.symm.trans step)
    have le := later.nextSerial_le (second.next.sane (sane hv'))
    rw [(second.serial (sane hv')).2] at le
    omega

/-! ## The step that shuts all down -/

/-- All that is outstanding is shut down by the next task: somebody has called for it, or the
mount goes down.  Then a task is given the number of these requests, for when they have been
finished, and the tasks behind it are what is next after that. -/
inductive Sweeps (s : State) : Task → List Task → Prop
  | call {self : RequestId} {rest : List Task}
      (first : s.agenda = .issue .shutDownRequests self :: rest) (held : s.managerHeld) :
      Sweeps s (.answer .shutDownRequests (.count s.ledger.size)) rest
  | takeDown {rest : List Task} (first : s.agenda = .takeDown :: rest) (up : s.up) :
      Sweeps s (.closeFiles s.ledger.size) rest

/-- What draining the ledger does: it is empty, the ids are free, and all requests are to be
finished before what comes after. -/
theorem drain_frame (s : State) (tasks : List Task) :
    (s.drain tasks).ledger.entries = [] ∧
    (s.drain tasks).pool = s.pool.releaseAll (s.ledger.entries.map (·.id.val)) ∧
    (s.drain tasks).agenda =
      s.ledger.entries.map (.finish · .shutDown) ++ (tasks ++ s.agenda) := by
  unfold State.drain
  dsimp only
  split <;> exact ⟨rfl, rfl, List.append_assoc ..⟩

/-- With nothing outstanding, draining the ledger changes nothing. -/
theorem drain_of_none (none : s.ledger.entries = []) (tasks : List Task) :
    s.drain tasks = s.push tasks := by
  obtain ⟨pool, callerPool, ⟨entries, next⟩⟩ := s
  subst none
  rfl

theorem Sweeps.drains (h : x.Sweeps report rest) (step : x.step = some y) :
    y.ledger.entries = [] ∧
    y.pool = x.pool.releaseAll (x.ledger.entries.map (·.id.val)) ∧
    ∃ own : List Task, (∀ task ∈ own, task = .leaveManager) ∧
      y.agenda = x.ledger.entries.map (.finish · .shutDown) ++ (own ++ report :: rest) := by
  cases h with
  | call first held =>
    rw [step_of_agenda first, Option.some.injEq] at step
    have issued : ({ x with agenda := rest } : State).drain
        [.leaveManager, .answer .shutDownRequests (.count x.ledger.size)] = y := by
      rw [← step]
      exact (if_pos held).symm
    have frame := drain_frame { x with agenda := rest }
      [.leaveManager, .answer .shutDownRequests (.count x.ledger.size)]
    rw [issued] at frame
    exact ⟨frame.1, frame.2.1, [.leaveManager], by simp, frame.2.2⟩
  | takeDown first up =>
    rw [step_of_agenda first, Option.some.injEq] at step
    obtain ⟨m, hm, mounted⟩ : ∃ m, x.mount = some m ∧ m.mounted := by
      rwa [State.up, Option.any_eq_true] at up
    have taken : ({ x with agenda := rest, mount := some { m with mounted := false } } :
        State).drain [.closeFiles x.ledger.size] = y := by
      rw [← step]
      show _ = State.takeDown _
      simp only [State.takeDown, hm, mounted, if_true]
    have frame := drain_frame { x with agenda := rest, mount := some { m with mounted := false } }
      [.closeFiles x.ledger.size]
    rw [taken] at frame
    exact ⟨frame.1, frame.2.1, [], by simp, frame.2.2⟩

/-- The requests that were outstanding have ended, shut down, and no others. -/
theorem Sweeps.ends_iff (h : x.Sweeps report rest) (hs : x.Sane) (hn : Next x y)
    (step : x.step = some y) :
    x.Ends y q ending ↔ q ∈ x.ledger.entries ∧ ending = .shutDown := by
  obtain ⟨task, behind, first, ends⟩ : ∃ task behind, x.agenda = task :: behind ∧
      ∀ q, task.ending? x q = some .shutDown := by
    cases h with
    | call first held => exact ⟨_, _, first, fun _ => rfl⟩
    | takeDown first up => exact ⟨_, _, first, fun _ => rfl⟩
  constructor
  · intro ended
    obtain ⟨task', behind', first', ends'⟩ := ended.task
    obtain ⟨rfl, -⟩ := List.cons.inj (first.symm.trans first')
    rw [ends q, Option.some.injEq] at ends'
    exact ⟨(mem_of_findExact? ended.before).1, ends'.symm⟩
  · rintro ⟨mem, rfl⟩
    refine ⟨hn, step, ⟨task, behind, first, ends q⟩, findExact?_of_mem hs.accounted mem, ?_⟩
    rw [Ledger.findExact?, (h.drains step).1]
    rfl

/-! ## One callback after the other -/

/-- Of tasks that finish one request each, every one stands in front of those behind it. -/
theorem pairwise_precedes (fate : ∀ key, s.Fate key) (ps : List Pending)
    (ha : s.agenda = front ++ (ps.map (.finish · ending) ++ rest)) :
    ps.Pairwise fun p q => s.Precedes q.key p.key := by
  induction ps generalizing front with
  | nil => exact .nil
  | cons p ps ih =>
    have later : s.agenda =
        (front ++ [.finish p ending]) ++ (ps.map (.finish · ending) ++ rest) := by simp [ha]
    refine .cons (fun q hq => ?_) (ih later)
    obtain ⟨between, behind, rfl⟩ := List.append_of_mem hq
    have clear := ((fate p.key).not_mem_back ha rfl).2
    exact ⟨front ++ .finish p ending :: between.map (.finish · ending), .finish q ending,
      behind.map (.finish · ending) ++ rest, by simp [ha], rfl, fun x hx => clear x (by simp_all)⟩

/-- A task that brings a callback about is the first to do so. -/
theorem owed?_of_becomes {old new : Trace} (h : old.Becomes s task new) (shows : old.owed ≠ [])
    (none : new.owed = []) : ∃ x ∈ old.owed, task = x := by
  cases h with
  | stay => exact (shows none).elim
  | enter | goOn | leave | lose => exact (shows rfl).elim
  | finish | settle => cases none
  | call named | pay named => exact ⟨_, List.mem_singleton_self _, named⟩

/-- Of two callbacks that are owed one behind the other, the one in front is invoked first. -/
theorem Course.not_owed_of_precedes {ending' : Ending} (course : Course s steps u) (hs : s.Sane)
    (fate : ∀ key, s.Fate key) (knownP : p.key.serial < s.ledger.nextSerial)
    (settledP : (s.trace p.key).Settled p ending) (knownQ : q.key.serial < s.ledger.nextSerial)
    (settledQ : (s.trace q.key).Settled q ending') (ne : q.key ≠ p.key)
    (precedes : s.Precedes p.key q.key) (still : (s.trace p.key).owed ≠ [])
    (invoked : (u.trace p.key).owed = []) : (u.trace q.key).owed = [] := by
  obtain ⟨before, v, after, w, -, toV, next, -, fromW, owed, paid⟩ :=
    course.exists_turn (P := fun trace => trace.owed = []) still invoked
  have sane := toV.reaches.sane hs
  have fate' : ∀ key, v.Fate key := fun key => toV.reaches.fate hs (fate key)
  have none : (v.trace q.key).owed = [] := by
    rcases next.becomes sane (fate' p.key) with same | ⟨task, rest, first, -, becomes⟩
    · exact (owed (same ▸ paid)).elim
    · obtain ⟨x, hx, rfl⟩ := owed?_of_becomes becomes owed paid
      have owes : task.owed? = some p.key := by simpa using (List.mem_filter.1 hx).2
      exact ((toV.precedes hs fate knownP settledP ne precedes).resolve_right owed).not_owed
        (fate' p.key) first owes ne
  have later : Reaches v u := .head next fromW.reaches
  exact later.not_owed sane (fate' q.key)
    (Nat.lt_of_lt_of_le knownQ (toV.reaches.nextSerial_le hs))
    (toV.reaches.settled hs knownQ settledQ) none

/-- A list of which those with a property come first is cut where they end. -/
theorem exists_cut_of_pairwise {α : Type} {P : α → Prop} {l : List α}
    (h : l.Pairwise fun a b => P b → P a) :
    ∃ front back, l = front ++ back ∧ (∀ a ∈ front, P a) ∧ ∀ a ∈ back, ¬ P a := by
  induction h with
  | nil => exact ⟨[], [], rfl, nofun, nofun⟩
  | @cons a l first _ ih =>
    by_cases ha : P a
    · obtain ⟨front, back, rfl, hf, hb⟩ := ih
      exact ⟨a :: front, back, rfl, List.forall_mem_cons.2 ⟨ha, hf⟩, hb⟩
    · exact ⟨[], a :: l, rfl, nofun,
        List.forall_mem_cons.2 ⟨ha, fun b hb holds => ha (first b hb holds)⟩⟩

/-! ## Shutdown of the request manager -/

/-- The one who waits for a request has been told that it was shut down, once. -/
def ToldOfShutdown (s : State) (p : Pending) : Prop :=
  ∃ event, event.Reports p .shutDown ∧ s.callbacks p.key = [event]

/-- What holds of a step from `x` to `y` that shuts all requests down, after some steps of a
run, and of a state `u` some more steps later. -/
structure Swept (before : List State) (x y : State) (report : Task) (rest : List Task)
    (after : List State) (u : State) : Prop where
  /-- The step ends the requests that are outstanding, no others, by shutting them down. -/
  ends : ∀ q ending, x.Ends y q ending ↔ q ∈ x.ledger.entries ∧ ending = .shutDown
  /-- Their ids are all free, and no others. -/
  released : ∀ n, n ∈ y.pool.live ↔ n ∈ x.pool.live ∧ ∀ p ∈ x.ledger.entries, p.id.val ≠ n
  /-- All that the step sets off is to finish these requests, and then to report their
  number. -/
  sets : ∃ own : List Task, (∀ task ∈ own, task = .leaveManager) ∧
    y.agenda = x.ledger.entries.map (.finish · .shutDown) ++ (own ++ report :: rest)
  /-- They stand in the order in which they were registered. -/
  ordered : x.ledger.entries.Pairwise fun p q => Elder before p.key q.key
  /-- None of them is outstanding any more, and none is ended by a later step. -/
  out : ∀ p ∈ x.ledger.entries, u.ledger.findExact? p.key = none ∧
    ∀ v ∈ after, ∀ w q ending, v.Ends w q ending → q.key ≠ p.key
  /-- At any time those who wait for the first few of them have been told that these were shut
  down, each once, and the others have been told nothing. -/
  told : ∃ told untold, x.ledger.entries = told ++ untold ∧ (∀ p ∈ told, u.ToldOfShutdown p) ∧
    ∀ p ∈ untold, u.callbacks p.key = []
  /-- Their number is still to be reported, or was when all had been told. -/
  reported : (∃ front, u.agenda = front ++ report :: rest) ∨
    ∃ v ∈ after, v.agenda = report :: rest ∧ ∀ p ∈ x.ledger.entries, v.ToldOfShutdown p
  /-- If no request is registered meanwhile, none is outstanding. -/
  empty : (∀ v ∈ after, ∀ w task p, ¬ v.Bears w task p) → u.ledger.entries = []
  /-- If there are none, a call comes to nothing but its answer. -/
  none : x.ledger.entries = [] → ∀ self, x.agenda = .issue .shutDownRequests self :: rest →
    x.managerHeld → x.follow? (List.replicate 3 .work) =
      some (({ x with agenda := rest } : State).reply .shutDownRequests (.count 0))

theorem shutDownRequests_of_none {self : RequestId} (none : x.ledger.entries = [])
    (first : x.agenda = .issue .shutDownRequests self :: rest) (held : x.managerHeld) :
    x.follow? (List.replicate 3 .work) =
      some (({ x with agenda := rest } : State).reply .shutDownRequests (.count 0)) := by
  -- What the call sets off, with more and more of it done.
  let ahead (tasks : List Task) : State := { x with agenda := tasks ++ rest }
  have issued : ({ x with agenda := rest } : State).perform (.issue .shutDownRequests self) =
      ahead [.leaveManager, .answer .shutDownRequests (.count 0)] := by
    have size : x.ledger.size = 0 := by rw [Ledger.size, none]; rfl
    refine (if_pos held).trans ((drain_of_none (s := ahead []) none _).trans ?_)
    show ahead [.leaveManager, .answer .shutDownRequests (.count x.ledger.size)] = _
    rw [size]
  have left : (ahead [.answer .shutDownRequests (.count 0)]).perform .leaveManager =
      ahead [.answer .shutDownRequests (.count 0)] :=
    if_pos (managerAlive_of_held (s := ahead _) held)
  have next : ∀ task tasks, (ahead (task :: tasks)).agenda = task :: (tasks ++ rest) :=
    fun _ _ => rfl
  have leaves := next .leaveManager [.answer .shutDownRequests (.count 0)]
  have answers := next (.answer .shutDownRequests (.count 0)) []
  rw [List.replicate_succ, follow?_work first (trespasses?_of_agenda first (by simp)), issued,
    List.replicate_succ, follow?_work leaves (trespasses?_of_agenda leaves (by simp))]
  show follow? (State.perform (ahead [.answer .shutDownRequests (.count 0)]) _) _ = _
  rw [left, List.replicate_succ, follow?_work answers (trespasses?_of_agenda answers (by simp))]
  rfl

theorem toldOfShutdown_of_not_owed (settled : (u.trace p.key).Settled p .shutDown)
    (none : (u.trace p.key).owed = []) : u.ToldOfShutdown p := by
  rcases settled.owed_or_paid with ⟨task, -, owed, -⟩ | ⟨event, reports, -, paid⟩
  · rw [none] at owed
    cases owed
  · exact ⟨event, reports, paid⟩

section sweeps

variable (sweeps : x.Sweeps report rest) (start : Start s₀) (toX : Course s₀ before x)
  (step : x.step = some y) (next : Next x y)
include sweeps start toX step next

theorem Sweeps.ends (hp : p ∈ x.ledger.entries) : x.Ends y p .shutDown :=
  (sweeps.ends_iff (toX.sane start) next step).2 ⟨hp, rfl⟩

theorem Sweeps.trace (hp : p ∈ x.ledger.entries) :
    y.trace p.key = { owed := [.finish p .shutDown] } :=
  (sweeps.ends start toX step next hp).trace (toX.sane start) (toX.fate start p.key)

/-- What was outstanding has ended, and stays so. -/
theorem Sweeps.settled (later : Reaches y v) (hp : p ∈ x.ledger.entries) :
    (v.trace p.key).Settled p .shutDown :=
  (sweeps.ends start toX step next hp).settled (toX.sane start) (toX.fate start p.key) later

/-- When nothing is left to do but what stood behind it, all that were outstanding have been
told. -/
theorem Sweeps.told (later : Reaches y v) (behind : ∀ task ∈ v.agenda, task ∈ report :: rest)
    (hp : p ∈ x.ledger.entries) : v.ToldOfShutdown p := by
  refine toldOfShutdown_of_not_owed (sweeps.settled start toX step next later hp) ?_
  -- What is left is behind the task that finished the request, and owes it nothing.
  obtain ⟨-, -, own, -, agenda⟩ := sweeps.drains step
  obtain ⟨front, back, entries⟩ := List.append_of_mem hp
  have fate : y.Fate p.key := next.fate (toX.sane start) (toX.fate start p.key)
  have ahead : y.agenda = front.map (.finish · .shutDown) ++ .finish p .shutDown ::
      (back.map (.finish · .shutDown) ++ (own ++ report :: rest)) := by simp [agenda, entries]
  have clear := (fate.not_mem_back ahead rfl).2
  rw [State.trace, List.filter_eq_nil_iff]
  intro task mem
  have mem := behind task mem
  simpa using clear task (by simp_all)

theorem Sweeps.absent (later : Reaches y v) (hp : p ∈ x.ledger.entries) :
    v.ledger.findExact? p.key = none := by
  rw [findExact?_eq, (sweeps.settled start toX step next later hp).outstanding_eq_nil]
  rfl

/-- Those who wait are told in the order in which the requests stood. -/
theorem Sweeps.inOrder (fromY : Course y after u) :
    x.ledger.entries.Pairwise fun p q =>
      (u.trace q.key).owed = [] → (u.trace p.key).owed = [] := by
  have saneX := toX.sane start
  have fateY : ∀ key, y.Fate key := fun key => next.fate saneX (toX.fate start key)
  have known : ∀ p ∈ x.ledger.entries, p.key.serial < y.ledger.nextSerial := fun p hp =>
    Nat.lt_of_lt_of_le ((toX.ordered start).given p hp) (next.nextSerial_le saneX)
  have settled : ∀ p ∈ x.ledger.entries, (y.trace p.key).Settled p .shutDown := fun p hp =>
    sweeps.settled start toX step next (.refl y) hp
  obtain ⟨-, -, own, -, agenda⟩ := sweeps.drains step
  have ahead : y.agenda = [] ++ _ := agenda
  have precedes := pairwise_precedes fateY x.ledger.entries ahead
  refine (precedes.and (toX.ordered start).increasing).imp_of_mem
    fun {p q} hp hq both invoked => ?_
  have ne : p.key ≠ q.key := fun same => Nat.ne_of_lt both.2 (congrArg RequestKey.serial same)
  have owed : (y.trace q.key).owed ≠ [] := by simp [sweeps.trace start toX step next hq]
  exact fromY.not_owed_of_precedes (next.sane saneX) fateY (known q hq) (settled q hq)
    (known p hp) (settled p hp) ne both.1 owed invoked

/-- Unless a request is registered later, none is outstanding any more. -/
theorem Sweeps.empty (course : Course s₀ (before ++ x :: after) u) (fromY : Course y after u)
    (unborn : ∀ v ∈ after, ∀ w task p, ¬ v.Bears w task p) : u.ledger.entries = [] := by
  have saneX := toX.sane start
  rw [List.eq_nil_iff_forall_not_mem]
  intro p hp
  have shows : u.trace p.key ≠ {} := by simp [((course.fate start p.key).of_mem hp).2]
  obtain ⟨first, v, last, w, task, q, cut, bears, own, -, -⟩ := course.exists_bears start shows
  have mem : v ∈ before ++ x :: after := by simp [cut]
  obtain ⟨z, step', -, toV, fromZ⟩ := course.reaches_of_mem mem
  obtain rfl := Option.some.inj (bears.step.symm.trans step')
  have new := own ▸ bears.known (toV.sane start.sane)
  -- It was registered later, as nothing that was registered before is there.
  have old : ¬ p.key.serial < y.ledger.nextSerial := by
    intro old
    have absent : y.ledger.findExact? p.key = none := by
      simp [Ledger.findExact?, (sweeps.drains step).1]
    have fateY : y.Fate p.key := next.fate saneX (toX.fate start p.key)
    have gone := fromY.reaches.absent (next.sane saneX) fateY old absent
    rw [findExact?_of_mem (course.sane start).accounted hp] at gone
    cases gone
  rcases List.mem_append.1 mem with hv | hv
  · obtain ⟨z, step'', -, -, toX'⟩ := toX.reaches_of_mem hv
    obtain rfl := Option.some.inj (bears.step.symm.trans step'')
    have le := toX'.nextSerial_le (bears.next.sane (toV.sane start.sane))
    exact old (Nat.lt_of_lt_of_le new (Nat.le_trans le (next.nextSerial_le saneX)))
  · rcases List.mem_cons.1 hv with rfl | hv
    · obtain rfl := Option.some.inj (bears.step.symm.trans step)
      exact old new
    · exact unborn v hv w task q bears

end sweeps

theorem callbacks_eq_nil_of_owed (settled : (u.trace p.key).Settled p ending)
    (owed : (u.trace p.key).owed ≠ []) : u.callbacks p.key = [] := by
  rcases settled.owed_or_paid with ⟨task, -, -, none⟩ | ⟨event, -, none, -⟩
  · exact none
  · exact (owed none).elim

/-- In every run, whatever callbacks and observers do, shutting the request manager down tells
those who wait for the requests that are outstanding, each once and in the order of their
creation. -/
theorem requests_shut_down (start : Start s₀) (course : Course s₀ (before ++ x :: after) u)
    (sweeps : x.Sweeps report rest) (step : x.step = some y) :
    Swept before x y report rest after u := by
  obtain ⟨toX, fair, fromY⟩ := course.split_of_step step
  have next : Next x y := .work step fair
  have saneX := toX.sane start
  obtain ⟨-, pool, own, plain, agenda⟩ := sweeps.drains step
  constructor
  case ends => exact fun q ending => sweeps.ends_iff saneX next step
  case released =>
    intro n
    rw [pool, IdPool.mem_live_releaseAll]
    simp
  case sets => exact ⟨own, plain, agenda⟩
  case ordered =>
    refine (toX.ordered start).increasing.imp_of_mem fun hp hq lt => ?_
    exact toX.elder start hp hq lt
  case out =>
    intro p hp
    refine ⟨sweeps.absent start toX step next fromY.reaches hp, fun v hv w q ending ends own => ?_⟩
    obtain ⟨-, -, -, toV, -⟩ := fromY.reaches_of_mem hv
    have found := ends.before
    rw [own, sweeps.absent start toX step next toV hp] at found
    cases found
  case told =>
    have settled : ∀ p ∈ x.ledger.entries, (u.trace p.key).Settled p .shutDown := fun p hp =>
      sweeps.settled start toX step next fromY.reaches hp
    obtain ⟨told, untold, cut, htold, huntold⟩ :=
      exists_cut_of_pairwise (sweeps.inOrder start toX step next fromY)
    refine ⟨told, untold, cut, fun p hp => ?_, fun p hp => ?_⟩
    · exact toldOfShutdown_of_not_owed (settled p (by simp [cut, hp])) (htold p hp)
    · exact callbacks_eq_nil_of_owed (settled p (by simp [cut, hp])) (huntold p hp)
  case reported =>
    have ahead : y.agenda = (x.ledger.entries.map (.finish · .shutDown) ++ own) ++
        report :: rest := by rw [agenda, List.append_assoc]
    refine (fromY.ahead_or_done (next.sane saneX) ahead).imp_right ?_
    rintro ⟨first, v, last, cut, hv⟩
    have mem : v ∈ after := by simp [cut]
    refine ⟨v, mem, hv, fun p hp => ?_⟩
    obtain ⟨-, -, -, toV, -⟩ := fromY.reaches_of_mem mem
    exact sweeps.told start toX step next toV (by simp [hv]) hp
  case empty => exact sweeps.empty start toX step next course fromY
  case none => exact fun none self first held => shutDownRequests_of_none none first held

/-- Two requests are shut down, and the first of the ones who wait creates another under an id
that has just been freed. -/
theorem requests_shut_down_of_two :
    ∃ before x y rest after u, x.ledger.size = 2 ∧
      Swept before x y (.answer .shutDownRequests (.count x.ledger.size)) rest after u ∧
      ∃ v ∈ after, ∀ p ∈ x.ledger.entries, v.ToldOfShutdown p := by
  have run : ((ofManager true true).follow?
      (calling [(.create .getMetadata none false none []
          [.create .getMetadata none false none [] [] []] [], 3),
        (.create .getMetadata none false none [] [] [], 3)])).any fun b =>
        ((b.push [.issue .shutDownRequests ⟨0⟩]).take? .work).any fun y =>
          (y.follow? (.rewind 1 :: List.replicate 11 .work)).any fun u =>
            b.ledger.size = 2 && b.managerHeld && u.agenda.isEmpty := by
    decide +kernel
  simp only [Option.any_eq_true, Bool.and_eq_true, decide_eq_true_eq, List.isEmpty_iff] at run
  obtain ⟨b, hb, y, hy, u, hu, ⟨two, held⟩, idle⟩ := run
  rw [take?, Option.ite_none_left_eq_some] at hy
  obtain ⟨fair, step⟩ := hy
  have toX := (course_of_follow? hb).call .shutDownRequests ⟨0⟩
  have whole := (toX.work step fun ht => fair (trespasses?_iff.2 ht)).trans (course_of_follow? hu)
  rw [List.append_assoc] at whole
  have swept := requests_shut_down (.manager true true _) whole (.call rfl held) step
  refine ⟨_, b.push [.issue .shutDownRequests ⟨0⟩], y, _, _, u, two, swept, ?_⟩
  rcases swept.reported with ⟨front, ahead⟩ | ⟨v, mem, -, told⟩
  · rw [idle] at ahead
    simp at ahead
  · exact ⟨v, mem, told⟩

end FileRelay.State
