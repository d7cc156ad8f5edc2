import Mathlib.Logic.Relation
import FileRelay.Session.Start

/-!
# Runs

A run goes on in small steps.  Most of them do the next task of the agenda.  Between two
tasks anybody may make a call: a client or the clock when nothing is under way, and a
callback, an observer's hook, the provider's end or another thread in the middle of
another call.  Calls nest to any depth that way, whatever the scripts left with requests
and observers say.  Besides, the counter of the id pool may come to stand anywhere, as it
does once the ids have come round.

A caller who shares the id pool of a request manager is trusted with one thing only: not
to free an id that is not its own.
-/

namespace FileRelay

namespace State

/-- The open files of the mount. -/
def openFiles (s : State) : List OpenFile :=
  match s.mount with
  | some m => m.files.files
  | none => []

/-- The ids of the outstanding requests, and those that open files keep in use. -/
def ownedIds (s : State) : List UInt32 :=
  s.ledger.entries.map (·.id.val) ++ s.openFiles.flatMap OpenFile.ownedIds

/-- Whether the next task frees an id behind the back of its owner.  Only a caller who
shares the pool of the request manager is able to. -/
def Trespasses (s : State) : Prop :=
  s.callerPool = none ∧ ∃ ref self rest,
    s.agenda = .issue (.pool (.release ref)) self :: rest ∧ (ref.resolve self).val ∈ s.ownedIds

/-- How a run goes on from a state. -/
inductive Next (s : State) : State → Prop
  /-- The next task is done. -/
  | work {t : State} (h : s.step = some t) (fair : ¬ s.Trespasses) : Next s t
  /-- Somebody makes a call. -/
  | call (call : Call) (self : RequestId) : Next s (s.push [.issue call self])
  /-- The counter of the id pool comes to stand elsewhere. -/
  | rewind (n : UInt32) : Next s { s with pool := s.pool.rewind n }

/-- What a run may come to from a state. -/
def Reaches : State → State → Prop := Relation.ReflTransGen Next

/-- How a run may start. -/
inductive Start : State → Prop
  | manager (privateIds timersRun : Bool) (horizon : Nat) :
      Start (ofManager privateIds timersRun horizon)
  | mount (settings : MountSettings) (link : Link) (timersRun : Bool) (firstId : UInt32)
      (horizon : Nat) : Start (ofMount settings link timersRun firstId horizon)

/-- Whether the mount is up. -/
def up (s : State) : Bool := s.mount.any (·.mounted)

namespace Reaches

variable {s t u : State}

theorem refl (s : State) : Reaches s s := Relation.ReflTransGen.refl

theorem trans (h : Reaches s t) (k : Reaches t u) : Reaches s u := Relation.ReflTransGen.trans h k

theorem tail (h : Reaches s t) (k : Next t u) : Reaches s u := Relation.ReflTransGen.tail h k

theorem head (h : Next s t) (k : Reaches t u) : Reaches s u := Relation.ReflTransGen.head h k

end Reaches

/-- What every step keeps holds at the end of a run if it held at the beginning. -/
theorem Reaches.invariant {P : State → Prop} {s t : State} (h : Reaches s t) (hs : P s)
    (step : ∀ u v, Reaches s u → Next u v → P u → P v) : P t := by
  induction h with
  | refl => exact hs
  | tail hu hv ih => exact step _ _ hu hv ih

/-- A step does the first task of the agenda. -/
theorem exists_of_step {s t : State} (h : s.step = some t) :
    ∃ task rest, s.agenda = task :: rest ∧ { s with agenda := rest }.perform task = t := by
  rw [step] at h
  cases hs : s.agenda with
  | nil => rw [hs] at h; cases h
  | cons task rest =>
    rw [hs] at h
    cases h
    exact ⟨task, rest, rfl, rfl⟩

/-- The first task of the agenda is what a step does. -/
theorem step_of_agenda {s : State} {task : Task} {rest : List Task}
    (h : s.agenda = task :: rest) : s.step = some ({ s with agenda := rest }.perform task) := by
  rw [step, h]

/-- Only a call that frees an id can do so behind the back of its owner. -/
theorem not_trespasses {s : State} {task : Task} {rest : List Task} (ha : s.agenda = task :: rest)
    (other : ∀ ref self, task ≠ .issue (.pool (.release ref)) self) : ¬ s.Trespasses := by
  rintro ⟨-, ref, self, rest', released, -⟩
  exact other ref self (List.cons.inj (ha.symm.trans released)).1

/-! ## Choosing a run -/

/-- Whether the next task frees an id behind the back of its owner. -/
def trespasses? (s : State) : Bool :=
  s.callerPool.isNone &&
    match s.agenda with
    | .issue (.pool (.release ref)) self :: _ => s.ownedIds.contains (ref.resolve self).val
    | _ => false

theorem trespasses?_iff {s : State} : s.trespasses? = true ↔ s.Trespasses := by
  rw [trespasses?, Trespasses, Bool.and_eq_true, Option.isNone_iff_eq_none]
  apply and_congr_right
  intro _
  split
  · rename_i ref self rest ha
    rw [List.contains_iff_mem]
    constructor
    · intro hmem
      exact ⟨ref, self, rest, ha, hmem⟩
    · rintro ⟨ref', self', rest', ha', hmem⟩
      rw [ha] at ha'
      cases ha'
      exact hmem
  · rename_i other
    constructor
    · intro h
      cases h
    · rintro ⟨ref, self, rest, ha, -⟩
      exact (other ref self rest ha).elim

/-- A way for a run to go on. -/
inductive Choice where
  | work
  | call (call : Call) (self : RequestId)
  | rewind (n : UInt32)

/-- Goes on in a given way, if that is possible. -/
def take? (s : State) : Choice → Option State
  | .work => if s.trespasses? then none else s.step
  | .call call self => some (s.push [.issue call self])
  | .rewind n => some { s with pool := s.pool.rewind n }

/-- Goes on in some given ways, one after the other. -/
def follow? (s : State) : List Choice → Option State
  | [] => some s
  | choice :: rest => (s.take? choice).bind (follow? · rest)

theorem next_iff {s t : State} : Next s t ↔ ∃ choice, s.take? choice = some t := by
  constructor
  · intro h
    cases h with
    | work h fair =>
      refine ⟨.work, ?_⟩
      rw [take?, if_neg fun ht => fair (trespasses?_iff.1 ht), h]
    | call call self => exact ⟨.call call self, rfl⟩
    | rewind n => exact ⟨.rewind n, rfl⟩
  · rintro ⟨choice, h⟩
    cases choice with
    | work =>
      rw [take?] at h
      split at h
      · cases h
      · rename_i fair
        exact .work h fun ht => fair (trespasses?_iff.2 ht)
    | call call self =>
      cases h
      exact .call call self
    | rewind n =>
      cases h
      exact .rewind n

/-- A run is a sequence of choices. -/
theorem reaches_iff {s t : State} : Reaches s t ↔ ∃ choices, s.follow? choices = some t := by
  constructor
  · intro h
    induction h using Relation.ReflTransGen.head_induction_on with
    | refl => exact ⟨[], rfl⟩
    | head hn _ ih =>
      obtain ⟨choice, hc⟩ := next_iff.1 hn
      obtain ⟨choices, h⟩ := ih
      refine ⟨choice :: choices, ?_⟩
      rw [follow?, hc, Option.bind_some, h]
  · rintro ⟨choices, h⟩
    induction choices generalizing s with
    | nil =>
      cases h
      exact .refl _
    | cons choice choices ih =>
      rw [follow?, Option.bind_eq_some_iff] at h
      obtain ⟨u, hu, h⟩ := h
      exact .head (next_iff.2 ⟨choice, hu⟩) (ih h)

theorem reaches_of_follow? {s t : State} {choices : List Choice}
    (h : s.follow? choices = some t) : Reaches s t := reaches_iff.2 ⟨choices, h⟩

end State

end FileRelay
