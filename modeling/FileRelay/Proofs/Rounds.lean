import FileRelay.Proofs.HandOver
import FileRelay.Proofs.Shelter

/-!
# What an observer is told of a request

The tasks that are to tell an observer of a request form a stack on the agenda: a new round comes
in front of what the observer has not been told yet.  So what it has been told, followed by what
it is still to be told, grows in two ways only.  A round may add a moment between the two, and the
task next may move from one to the other.  This file says which rounds there are: one when the
request is registered, some while it is outstanding, and one for its end, after its callback.
-/

namespace FileRelay

/-- The moment of a request that doing a task tells an observer of. -/
def Task.told? (observer : Nat) (key : RequestKey) : Task → Option Moment
  | .tell i request moment => if i = observer ∧ request = key then some moment else none
  | _ => none

/-- The moment of a request that doing a task has all observers told of by then. -/
def Task.announced? (key : RequestKey) : Task → Option Moment
  | .announce request moment => if request = key then some moment else none
  | _ => none

/-- The moment of a request that doing a task sets out to announce: its end. -/
def Task.announces? (key : RequestKey) : Task → Option Moment
  | .finish p ending => if p.key = key then some (.finished p.kind ending.outcome) else none
  | _ => none

/-- The request of which a task tells, or which it is to answer with. -/
def Task.subject? : Task → Option RequestKey
  | .tell _ key _ | .announce key _ | .grant _ key => some key
  | _ => none

namespace State

variable {s₀ s t u : State} {task : Task} {rest tasks : List Task} {p : Pending}
  {key : RequestKey} {moment : Moment} {i : Nat} {steps : List State}

/-- The moments of a request that an observer is still to be told of, the next first. -/
def untold (s : State) (i : Nat) (key : RequestKey) : List Moment :=
  s.agenda.filterMap (Task.told? i key)

/-- The moments of a request that are still to be announced. -/
def unannounced (s : State) (key : RequestKey) : List Moment :=
  s.agenda.filterMap (Task.announced? key)

/-- The moment of a request that the next step tells an observer of. -/
def hears? (s : State) (i : Nat) (key : RequestKey) : Option Moment :=
  s.agenda.head?.bind (Task.told? i key)

/-- The moments of a request that an observer is told of in the steps of a course. -/
def told (i : Nat) (key : RequestKey) (steps : List State) : List Moment :=
  steps.filterMap (·.hears? i key)

/-- Whom a state has as an observer: the name of a client's, and none for the one that tells the
provider of cancellations. -/
def listener? (s : State) (i : Nat) : Option (Option String) :=
  s.observers[i]?.map Observer.name?

/-! ## Tasks that tell -/

theorem told?_of_mute (h : task.mute) : task.told? i key = none := by
  cases task with
  | tell => cases h
  | _ => rfl

theorem told?_eq_some : task.told? i key = some moment ↔ task = .tell i key moment := by
  constructor
  · intro h
    cases task with
    | tell j request m =>
      rw [Task.told?, Option.ite_none_right_eq_some] at h
      obtain ⟨⟨rfl, rfl⟩, same⟩ := h
      cases same
      rfl
    | _ => cases h
  · rintro rfl
    rw [Task.told?, if_pos ⟨rfl, rfl⟩]

theorem announced?_of_mute (h : task.mute) : task.announced? key = none := by
  cases task with
  | announce => cases h
  | _ => rfl

theorem subject?_of_mute (h : task.mute) : task.subject? = none := by
  cases task with
  | tell | announce | grant => cases h
  | _ => rfl

theorem filterMap_told?_of_mute (h : ∀ x ∈ tasks, x.mute) :
    tasks.filterMap (Task.told? i key) = [] :=
  List.filterMap_eq_nil_iff.2 fun x hx => told?_of_mute (h x hx)

theorem filterMap_announced?_of_mute (h : ∀ x ∈ tasks, x.mute) :
    tasks.filterMap (Task.announced? key) = [] :=
  List.filterMap_eq_nil_iff.2 fun x hx => announced?_of_mute (h x hx)

/-- A round tells each observer once. -/
theorem filterMap_told?_tells (s : State) (request : RequestKey) (moment : Moment) :
    (s.tells request moment).filterMap (Task.told? i key) =
      if request = key ∧ i < s.observers.length then [moment] else [] := by
  rw [tells]
  induction s.observers.length with
  | zero => simp
  | succ n ih =>
    rw [List.range_succ, List.map_append, List.filterMap_append, ih]
    by_cases own : request = key
    · by_cases last : n = i
      · subst last
        simp [Task.told?, own]
      · have split : (i < n + 1) = (i < n) := by
          rw [eq_iff_iff]
          omega
        simp [Task.told?, own, last, split]
    · simp [Task.told?, own]

theorem filterMap_announced?_tells (s : State) (request : RequestKey) (moment : Moment) :
    (s.tells request moment).filterMap (Task.announced? key) = [] := by
  rw [List.filterMap_eq_nil_iff]
  intro x hx
  obtain ⟨j, -, rfl⟩ := List.mem_map.1 hx
  rfl

/-- Telling an observer leaves everyone the observer that they are. -/
theorem tell_listener? (s : State) (j : Nat) (request : RequestKey) (moment : Moment) (i : Nat) :
    (s.tell j request moment).listener? i = s.listener? i := by
  have cancelled : (s.cancel request).observers = s.observers := by
    unfold State.cancel
    split
    · rfl
    · split
      · split <;> rfl
      · rfl
  unfold State.tell listener?
  split
  · rfl
  · split
    · rw [cancelled]
    · rfl
  · rfl
  · rename_i name hooks there
    show ((s.observers.set j (.watcher name _))[i]?).map _ = _
    rw [List.getElem?_set]
    split
    · subst i
      split
      · rw [there]
        rfl
      · rename_i absent
        rw [List.getElem?_eq_none (Nat.le_of_not_lt absent)]
    · rfl

/-! ## A step -/

/-- What a step that does not announce anything of a request means to an observer of it. -/
inductive Hearing (i : Nat) (key : RequestKey) (s t : State) : Prop
  /-- The observer is told of the next moment. -/
  | told {moment : Moment} (now : s.hears? i key = some moment)
      (untold : s.untold i key = moment :: t.untold i key)
  | still (silent : s.hears? i key = none) (untold : t.untold i key = s.untold i key)
  /-- The request is registered. -/
  | enters {p : Pending} (silent : s.hears? i key = none) (own : p.key = key)
      (serial : p.serial = s.ledger.nextSerial) (there : i < s.observers.length)
      (untold : t.untold i key = .created p.kind :: s.untold i key)
  /-- The request, which is outstanding, goes on. -/
  | between {p : Pending} {moment : Moment} (silent : s.hears? i key = none)
      (mem : p ∈ s.ledger.entries) (own : p.key = key) (between : moment.between)
      (there : i < s.observers.length) (untold : t.untold i key = moment :: s.untold i key)

theorem untold_pop (ha : s.agenda = task :: rest) :
    s.untold i key = (task.told? i key).toList ++ rest.filterMap (Task.told? i key) := by
  rw [untold, ha]
  cases h : task.told? i key with
  | none => rw [List.filterMap_cons_none h]; rfl
  | some moment => rw [List.filterMap_cons_some h]; rfl

theorem unannounced_pop (ha : s.agenda = task :: rest) :
    s.unannounced key =
      (task.announced? key).toList ++ rest.filterMap (Task.announced? key) := by
  rw [unannounced, ha]
  cases h : task.announced? key with
  | none => rw [List.filterMap_cons_none h]; rfl
  | some moment => rw [List.filterMap_cons_some h]; rfl

theorem hears?_eq (ha : s.agenda = task :: rest) : s.hears? i key = task.told? i key := by
  rw [hears?, ha]
  rfl

/-- Nothing comes of tasks that tell nobody. -/
theorem Hearing.of_mute (ha : s.agenda = task :: rest) (quiet : task.told? i key = none)
    (agenda : t.agenda = tasks ++ rest) (mute : ∀ x ∈ tasks, x.mute) : Hearing i key s t := by
  refine .still ((hears?_eq ha).trans quiet) ?_
  rw [untold_pop ha, quiet, untold, agenda, List.filterMap_append, filterMap_told?_of_mute mute]
  rfl

theorem Round.untold {back : List Task} {request : RequestKey}
    (round : Round { s with agenda := rest } t request moment back)
    (ha : s.agenda = task :: rest) (quiet : task.told? i key = none)
    (back_told : back.filterMap (Task.told? i key) = []) :
    t.untold i key =
      (if request = key ∧ i < s.observers.length then [moment] else []) ++ s.untold i key := by
  rw [untold_pop ha, quiet, State.untold, round.agenda, List.filterMap_append,
    List.filterMap_append, back_told, filterMap_told?_tells]
  rfl

/-- An observer that is there is told what is announced. -/
theorem untold_of_announce (h : s.step = some t) (ha : s.agenda = .announce key moment :: rest)
    (i : Nat) : s.hears? i key = none ∧
      t.untold i key = (if i < s.observers.length then [moment] else []) ++ s.untold i key := by
  refine ⟨hears?_eq ha, ?_⟩
  rw [step_of_agenda ha, Option.some.injEq] at h
  subst h
  rw [untold_pop ha, untold]
  show (_ ++ rest).filterMap _ = _
  rw [List.filterMap_append, filterMap_told?_tells]
  simp [Task.told?]

theorem hearing_of_step (h : s.step = some t) (i : Nat) (key : RequestKey)
    (other : ∀ moment rest, s.agenda ≠ .announce key moment :: rest) : Hearing i key s t := by
  obtain ⟨task, rest, ha, tidings⟩ := exists_tidings h
  cases tidings with
  | hums mute _ h =>
    rcases h with h | ⟨-, p, moment, back, mem, between, mutes, round⟩
    · obtain ⟨tasks, agenda, mutes⟩ := h.agenda
      exact .of_mute ha (told?_of_mute mute) agenda mutes
    · have quiet : task.told? i key = none := told?_of_mute mute
      have untold := round.untold ha quiet (filterMap_told?_of_mute mutes)
      split at untold
      · rename_i h
        exact .between ((hears?_eq ha).trans quiet) mem h.1 between h.2 untold
      · exact .still ((hears?_eq ha).trans quiet) untold
  | @enters call self p back _ enters mutes round =>
    have back_told : (back ++ [Task.grant call p.key]).filterMap (Task.told? i key) = [] := by
      rw [List.filterMap_append, filterMap_told?_of_mute mutes]
      rfl
    have untold := round.untold ha rfl back_told
    split at untold
    · rename_i h
      exact .enters (hears?_eq ha) h.1 enters.serial h.2 untold
    · exact .still (hears?_eq ha) untold
  | observe name hooks observers mute =>
    obtain ⟨tasks, agenda, mutes⟩ := mute.agenda
    exact .of_mute ha rfl agenda mutes
  | finish p ending =>
    refine .still (hears?_eq ha) ?_
    rw [untold_pop ha, untold, finish_agenda, List.filterMap_append,
      filterMap_told?_of_mute fun x hx => mute_of_finish hx]
    rfl
  | announce request moment =>
    have ne : request ≠ key := by
      rintro rfl
      exact other moment rest ha
    refine .still (hears?_eq ha) ?_
    rw [untold_pop ha, untold]
    show (_ ++ rest).filterMap _ = _
    rw [List.filterMap_append, filterMap_told?_tells, if_neg fun h => ne h.1]
    rfl
  | tell observer request moment =>
    obtain ⟨tasks, agenda, mutes⟩ := tell_agenda { s with agenda := rest } observer request moment
    cases now : (Task.tell observer request moment).told? i key with
    | none => exact .of_mute ha now agenda fun x hx => (mutes x hx).1
    | some m =>
      refine .told ((hears?_eq ha).trans now) ?_
      rw [untold_pop ha, now, untold, agenda, List.filterMap_append,
        filterMap_told?_of_mute fun x hx => (mutes x hx).1]
      rfl
  | grant call request => exact .of_mute ha rfl (List.nil_append _).symm (by simp)
  | drop => exact .of_mute ha rfl (List.nil_append _).symm (by simp)

/-- In a step an observer is told what comes next of a request, or more is put before what it is
still to be told. -/
theorem untold_of_step (h : s.step = some t) (i : Nat) (key : RequestKey) :
    (∃ moment, s.hears? i key = some moment ∧ s.untold i key = moment :: t.untold i key) ∨
    s.hears? i key = none ∧ ∃ moments, t.untold i key = moments ++ s.untold i key := by
  by_cases announces : ∃ moment rest, s.agenda = .announce key moment :: rest
  · obtain ⟨moment, rest, ha⟩ := announces
    obtain ⟨silent, untold⟩ := untold_of_announce h ha i
    exact .inr ⟨silent, _, untold⟩
  · cases hearing_of_step h i key fun moment rest ha => announces ⟨moment, rest, ha⟩ with
    | told now untold => exact .inl ⟨_, now, untold⟩
    | still silent untold => exact .inr ⟨silent, [], untold⟩
    | @enters p silent _ _ _ untold => exact .inr ⟨silent, [.created p.kind], untold⟩
    | @between p moment silent _ _ _ _ untold => exact .inr ⟨silent, [moment], untold⟩

/-- What a task sets when it is done: one round at most, and behind it tasks that tell nobody, and
of which only what finishes a request has something announced, its end. -/
structure SetsRound (s : State) (task : Task) (news back : List Task) : Prop where
  round : news = [] ∨ ∃ request moment, news = s.tells request moment
  quiet : ∀ i key, back.filterMap (Task.told? i key) = []
  secret : ∀ key, back.filterMap (Task.announced? key) = (task.announces? key).toList

theorem SetsRound.of_mute {news back : List Task}
    (round : news = [] ∨ ∃ request moment, news = s.tells request moment)
    (mute : ∀ x ∈ back, x.mute) (none : ∀ key, task.announces? key = none) :
    SetsRound s task news back where
  round := round
  quiet := fun _ _ => filterMap_told?_of_mute mute
  secret := fun key => by
    rw [filterMap_announced?_of_mute mute, none key]
    rfl

theorem SetsRound.of_finish (s : State) (p : Pending) (ending : Ending) :
    SetsRound s (.finish p ending) [] (Task.script s.finishScript p.id ++ [.complete p ending] ++
      [.announce p.key (.finished p.kind ending.outcome)]) where
  round := .inl rfl
  quiet := fun i key => by
    rw [List.filterMap_append, filterMap_told?_of_mute fun x hx => mute_of_finish hx]
    rfl
  secret := fun key => by
    rw [List.filterMap_append, filterMap_announced?_of_mute fun x hx => mute_of_finish hx]
    by_cases own : p.key = key <;> simp [Task.announces?, Task.announced?, own]

theorem exists_round_of_step (h : s.step = some t) (ha : s.agenda = task :: rest) :
    ∃ news back, t.agenda = news ++ (back ++ rest) ∧ SetsRound s task news back := by
  obtain ⟨first, rest', ha', tidings⟩ := exists_tidings h
  obtain ⟨rfl, rfl⟩ := List.cons.inj (ha'.symm.trans ha)
  cases tidings with
  | hums _ unfinished h =>
    have none : ∀ key, first.announces? key = none := by
      intro key
      cases first with
      | finish p ending => exact (unfinished p ending rfl).elim
      | _ => rfl
    rcases h with h | ⟨-, p, moment, back, -, -, mutes, round⟩
    · obtain ⟨tasks, agenda, mutes⟩ := h.agenda
      exact ⟨[], tasks, agenda, .of_mute (.inl rfl) mutes none⟩
    · exact ⟨_, back, round.agenda, .of_mute (.inr ⟨p.key, moment, rfl⟩) mutes none⟩
  | @enters call self p back _ _ mutes round =>
    refine ⟨_, back ++ [.grant call p.key], round.agenda, .inr ⟨p.key, .created p.kind, rfl⟩,
      fun i key => ?_, fun key => ?_⟩
    · rw [List.filterMap_append, filterMap_told?_of_mute mutes]
      rfl
    · rw [List.filterMap_append, filterMap_announced?_of_mute mutes]
      rfl
  | observe name hooks observers mute =>
    obtain ⟨tasks, agenda, mutes⟩ := mute.agenda
    exact ⟨[], tasks, agenda, .of_mute (.inl rfl) mutes fun _ => rfl⟩
  | finish p ending =>
    exact ⟨[], _, (finish_agenda _ p ending).trans (List.append_cons _ _ _), .of_finish s p ending⟩
  | announce request moment =>
    exact ⟨_, [], rfl, .of_mute (.inr ⟨request, moment, rfl⟩) (by simp) fun _ => rfl⟩
  | tell observer request moment =>
    obtain ⟨tasks, agenda, mutes⟩ := tell_agenda { s with agenda := rest' } observer request moment
    exact ⟨[], tasks, agenda, .of_mute (.inl rfl) (fun x hx => (mutes x hx).1) fun _ => rfl⟩
  | grant | drop => exact ⟨[], [], rfl, .of_mute (.inl rfl) (by simp) fun _ => rfl⟩

/-- What is still to be announced after a step: what it sets out to announce, and what was to be
announced behind it. -/
theorem unannounced_of_step (h : s.step = some t) (ha : s.agenda = task :: rest)
    (key : RequestKey) : t.unannounced key =
      (task.announces? key).toList ++ rest.filterMap (Task.announced? key) := by
  obtain ⟨news, back, agenda, sets⟩ := exists_round_of_step h ha
  have none : news.filterMap (Task.announced? key) = [] := by
    rcases sets.round with rfl | ⟨request, moment, rfl⟩
    · rfl
    · exact filterMap_announced?_tells s request moment
  rw [unannounced, agenda, List.filterMap_append, List.filterMap_append, none, sets.secret]
  rfl

/-! ## Who the observers are -/

/-- An observer stays the observer that it is for as long as the manager is there. -/
theorem listener?_of_step {listener : Option String} (h : s.step = some t) (alive : t.managerAlive)
    (there : s.listener? i = some listener) : t.listener? i = some listener := by
  have same : t.observers = s.observers → t.listener? i = some listener := by
    intro observers
    rwa [listener?, observers]
  obtain ⟨task, rest, ha, tidings⟩ := exists_tidings h
  cases tidings with
  | hums _ _ h =>
    rcases h with h | ⟨-, _, _, _, -, -, -, round⟩
    · exact same h.observers
    · exact same round.observers
  | enters _ _ round => exact same round.observers
  | observe name hooks observers =>
    obtain ⟨observer, there, name⟩ := Option.map_eq_some_iff.1 there
    obtain ⟨inside, -⟩ := List.getElem?_eq_some_iff.1 there
    rw [listener?, observers, List.getElem?_append_left inside]
    exact Option.map_eq_some_iff.2 ⟨observer, there, name⟩
  | finish | announce | grant => exact same rfl
  | tell j request moment =>
    rw [tell_listener?]
    exact there
  | drop gone =>
    have dead : (State.managerAlive { s with
        agenda := rest, ledger := { s.ledger with entries := [] }, observers := [] }) = false :=
      gone
    rw [dead] at alive
    cases alive

theorem Next.listener? {listener : Option String} (hn : Next s t) (alive : t.managerAlive)
    (there : s.listener? i = some listener) : t.listener? i = some listener := by
  cases hn with
  | work h fair => exact listener?_of_step h alive there
  | call call self => exact there
  | rewind n => exact there

theorem lt_of_listener? {listener : Option String} (there : s.listener? i = some listener) :
    i < s.observers.length := by
  obtain ⟨observer, there, -⟩ := Option.map_eq_some_iff.1 there
  exact (List.getElem?_eq_some_iff.1 there).1

/-! ## What a task may be about -/

/-- What a task tells of, or is to answer with, is a request that has been registered. -/
def Informed (s : State) : Prop :=
  ∀ x ∈ s.agenda, ∀ key, x.subject? = some key → key.serial < s.ledger.nextSerial

theorem Next.informed (hn : Next s t) (hs : s.Sane) (fate : ∀ key, s.Fate key)
    (h : s.Informed) : t.Informed := by
  intro x hx key subject
  have le := hn.nextSerial_le hs
  cases hn with
  | work step fair =>
    obtain ⟨task, rest, ha, tidings⟩ := exists_tidings step
    have first : task.subject? = some key → key.serial < t.ledger.nextSerial := by
      intro subject
      exact Nat.lt_of_lt_of_le (h task (ha ▸ List.mem_cons_self) key subject) le
    have new : ∀ {p : Pending}, Enters task p { s with agenda := rest } t →
        p.key.serial < t.ledger.nextSerial := by
      intro p enters
      rw [enters.ledger]
      exact Nat.lt_succ_of_le (Nat.le_of_eq enters.serial)
    rcases tidings.utters hx with old | mute | utters
    · exact Nat.lt_of_lt_of_le (h x (ha ▸ List.mem_cons_of_mem _ old) key subject) le
    · rw [subject?_of_mute mute] at subject
      cases subject
    · cases utters with
      | @tellOn p mem =>
        cases subject
        exact Nat.lt_of_lt_of_le ((fate p.key).of_mem mem).1 le
      | tellNew enters | grant _ enters =>
        cases subject
        exact new enters
      | tell named =>
        cases subject
        exact first (named ▸ rfl)
      | announce named =>
        subst named
        cases subject
        exact Nat.lt_of_lt_of_le ((fate _).mourns (ha ▸ List.mem_cons_self) rfl).known le
  | call call self =>
    rcases List.mem_cons.1 hx with rfl | hx
    · cases subject
    · exact h x hx key subject
  | rewind n => exact h x hx key subject

theorem Reaches.informed (start : Start s₀) (h : Reaches s₀ s) : s.Informed :=
  h.invariant (P := Informed) (by cases start <;> exact fun x hx => (List.not_mem_nil hx).elim)
    fun _ _ hu hn hs =>
      hn.informed (hu.sane start.sane) (fun key => hu.fate start.sane (start.fate key)) hs

/-- Nobody is to be told of a request that has not been registered yet. -/
theorem Informed.untold (h : s.Informed) (new : ¬ key.serial < s.ledger.nextSerial) (i : Nat) :
    s.untold i key = [] := by
  rw [State.untold, List.filterMap_eq_nil_iff]
  intro x hx
  cases x with
  | tell j request moment =>
    have ne : request ≠ key := by
      rintro rfl
      exact new (h _ hx request rfl)
    simp [Task.told?, ne]
  | _ => rfl

theorem Informed.unannounced (h : s.Informed) (new : ¬ key.serial < s.ledger.nextSerial) :
    s.unannounced key = [] := by
  rw [State.unannounced, List.filterMap_eq_nil_iff]
  intro x hx
  cases x with
  | announce request moment =>
    have ne : request ≠ key := by
      rintro rfl
      exact new (h _ hx request rfl)
    simp [Task.announced?, ne]
  | _ => rfl

end State

end FileRelay
