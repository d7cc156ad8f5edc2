import FileRelay.Proofs.Change.Tasks

/-!
# What is kept in use

Requests are outstanding only as long as their manager is there, and those of operations
only as long as the mount is up.  A mount that is up is either still in use, or about to
be taken down while its manager lives on; so it is never dropped with an operation
outstanding.
-/

namespace FileRelay.State

variable {b s t u v : State} {task : Task} {rest : List Task}

/-- What is outstanding, and what is in use, is backed by something that is there. -/
structure Backed (s : State) : Prop where
  live : s.ledger.entries ≠ [] → s.managerAlive
  facade : ∀ p ∈ s.ledger.entries, p.owner.isOperation → s.up
  used : s.agenda.any Task.leavesMount → s.mount.isSome

/-- A mount that is up is in use, or is to be taken down by a task behind which its
manager is still in use. -/
def Attended (s : State) : Prop :=
  s.up → s.mount?.isSome ∨
    ∃ front back, s.agenda = front ++ .takeDown :: back ∧ back.any Task.leavesManager

/-! ## One move -/

theorem isSome_mount_of_face (h : t.mount.map Mount.face = s.mount.map Mount.face) :
    t.mount.isSome = s.mount.isSome := by
  have hf := congrArg Option.isSome h
  rwa [Option.isSome_map, Option.isSome_map] at hf

/-- What the mount was set up with, if there is a mount at all. -/
def settings? (s : State) : Option MountSettings := s.mount.map (·.settings)

/-- Nothing sets up a mount anew, or takes it away. -/
theorem Move.settings? (h : Move b task s t) : t.settings? = s.settings? := by
  cases h with
  | keep h =>
    have face := congrArg (Option.map (·.1)) h.face
    rwa [Option.map_map, Option.map_map] at face
  | @drain mount _ down =>
    rcases down with rfl | rfl
    · rfl
    · rw [State.settings?, State.settings?, Option.map_map]
      rfl
  | mark _ _ hm | add hm | remove hm | clear hm =>
    rw [State.settings?, State.settings?, hm]
    rfl
  | register | pull | share => rfl

/-- What is kept in use after a change that keeps the mount, and leaves fewer requests. -/
theorem Backed.of_subset (h : s.Backed) (alive : t.managerAlive = s.managerAlive)
    (entries : ∀ p ∈ t.ledger.entries, p ∈ s.ledger.entries)
    (up : t.ledger.entries ≠ [] → t.up = s.up)
    (used : t.agenda.any Task.leavesMount → s.agenda.any Task.leavesMount)
    (mount : s.mount.isSome → t.mount.isSome) : t.Backed where
  live := by
    intro ht
    obtain ⟨p, hp⟩ := List.exists_mem_of_ne_nil _ ht
    rw [alive]
    exact h.live (List.ne_nil_of_mem (entries p hp))
  facade := by
    intro p hp ho
    rw [up (List.ne_nil_of_mem hp)]
    exact h.facade p (entries p hp) ho
  used := fun ht => mount (h.used (used ht))

theorem up_of_mount {m : Mount} (hm : s.mount = some m) : s.up = m.mounted := by
  rw [State.up, hm, Option.any_some]

theorem Move.backed (h : Move b task s t) (hs : s.Backed) : t.Backed := by
  have alive := h.stays.1
  cases h with
  | keep h =>
    obtain ⟨f, hf, entries⟩ := h.entries
    refine ⟨?_, ?_, ?_⟩
    · intro ht
      rw [alive]
      refine hs.live fun hnil => ht ?_
      rw [entries, hnil, List.map_nil]
    · intro p hp ho
      rw [entries, List.mem_map] at hp
      obtain ⟨q, hq, rfl⟩ := hp
      rw [(hf q).owner.isOperation_eq] at ho
      rw [h.up]
      exact hs.facade q hq ho
    · intro ht
      rw [isSome_mount_of_face h.face]
      exact (h.used ht).elim hs.used exists_mount_of_inUse
  | @register p pool held _ up =>
    refine ⟨?_, ?_, hs.used⟩
    · intro _
      rw [alive]
      exact managerAlive_of_held held
    · intro q hq ho
      rcases List.mem_append.1 hq with hq | hq
      · exact hs.facade q (List.mem_filter.1 hq).1 ho
      · rw [List.mem_singleton.1 hq] at ho
        exact up ho
  | pull =>
    exact hs.of_subset alive (fun q hq => (List.mem_filter.1 hq).1) (fun _ => rfl) id id
  | @drain mount _ down =>
    refine hs.of_subset alive (fun q hq => (List.not_mem_nil hq).elim) (fun h => (h rfl).elim) ?_ ?_
    · simp [List.any_append, Task.leavesMount]
    · rcases down with rfl | rfl
      · exact id
      · simp
  | mark _ _ hm | add hm | remove hm | clear hm =>
    refine hs.of_subset alive (fun q hq => hq) ?_ id fun _ => rfl
    intro _
    rw [up_of_mount hm]
    rfl
  | share => exact hs.of_subset alive (fun q hq => hq) (fun _ => rfl) id id

/-- No move brings a mount back up. -/
theorem Move.up_of_up (h : Move b task s t) (ht : t.up) : s.up := by
  cases h with
  | keep h =>
    rw [h.up] at ht
    exact ht
  | @drain mount _ down =>
    rcases down with rfl | rfl
    · exact ht
    · rw [State.up, Option.any_map] at ht
      revert ht
      cases s.mount <;> simp
  | mark _ _ hm | add hm | remove hm | clear hm =>
    rw [up_of_mount hm]
    exact ht
  | register | pull | share => exact ht

/-- Tasks are put in front of the agenda. -/
theorem Move.suffix (h : Move b task s t) : s.agenda <:+ t.agenda := by
  cases h with
  | keep h =>
    obtain ⟨tasks, ht, -⟩ := h.agenda
    exact ⟨tasks, ht.symm⟩
  | pull | drain => exact List.suffix_append _ _
  | register | mark | add | remove | clear | share => exact List.suffix_rfl

/-! ## A change -/

theorem Change.backed (h : Change b task s t) (hs : s.Backed) : t.Backed := by
  induction h with
  | refl => exact hs
  | tail _ hm ih => exact hm.backed ih

theorem Change.up_of_up (h : Change b task s t) (ht : t.up) : s.up := by
  induction h with
  | refl => exact ht
  | tail _ hm ih => exact ih (hm.up_of_up ht)

theorem Change.suffix (h : Change b task s t) : s.agenda <:+ t.agenda := by
  induction h with
  | refl => exact List.suffix_rfl
  | tail _ hm ih => exact ih.trans hm.suffix

theorem Change.settings? (h : Change b task s t) : t.settings? = s.settings? := by
  induction h with
  | refl => rfl
  | tail _ hm ih => exact hm.settings?.trans ih

theorem Pass.backed (h : Pass task s t) (hs : s.Backed) : t.Backed := by
  obtain ⟨ledger, -, -, mount, -, tasks, agenda, quiet⟩ := h.frame
  refine hs.of_subset h.stays.1 (by rw [ledger]; exact fun p hp => hp) ?_ ?_ ?_
  · intro _
    rw [State.up, State.up, mount]
  · rw [agenda, (any_leaves_append quiet _).2]
    exact id
  · rw [mount]
    exact id

theorem Pass.leaves_eq_false (h : Pass task s t) : task.leaves = false := by
  cases h <;> rfl

/-! ## A step -/

/-- A task that ends no use leaves all in use as it leaves the agenda. -/
theorem stays_of_pop (ha : b.agenda = task :: rest) (hl : task.leaves = false) :
    ({ b with agenda := rest } : State).managerAlive = b.managerAlive ∧
      ({ b with agenda := rest } : State).mount?.isSome = b.mount?.isSome := by
  have quiet : ∀ x ∈ [task], x.leaves = false := by simpa using hl
  have h := any_leaves_append quiet rest
  rw [List.singleton_append, ← ha] at h
  exact ⟨managerAlive_congr rfl rfl h.2.symm h.1.symm, inUse_congr rfl h.2.symm⟩

theorem used_of_pop (ha : b.agenda = task :: rest) (h : rest.any Task.leavesMount) :
    b.agenda.any Task.leavesMount := by
  rw [ha, List.any_cons, h, Bool.or_true]

theorem Backed.pop (hb : b.Backed) (ha : b.agenda = task :: rest) (hl : task.leaves = false) :
    ({ b with agenda := rest } : State).Backed :=
  hb.of_subset (stays_of_pop ha hl).1 (fun _ hp => hp) (fun _ => rfl) (used_of_pop ha) id

theorem Effect.backed (h : Effect b task { b with agenda := rest } t)
    (ha : b.agenda = task :: rest) (hb : b.Backed) : t.Backed := by
  cases h with
  | change quiet stays h => exact h.backed (hb.pop ha stays)
  | settle h pass k =>
    exact k.backed (pass.backed (h.backed (hb.pop ha pass.leaves_eq_false)))
  | keepManager alive => exact ⟨fun _ => alive, hb.facade, fun h => hb.used (used_of_pop ha h)⟩
  | dropManager gone =>
    refine ⟨fun h => (h rfl).elim, fun p hp => (List.not_mem_nil hp).elim, ?_⟩
    intro h
    exact hb.used (used_of_pop ha h)
  | keepMount inUse =>
    refine ⟨fun _ => managerAlive_of_inUse inUse, hb.facade, ?_⟩
    intro h
    exact hb.used (used_of_pop ha h)
  | dropMount gone =>
    refine ⟨?_, hb.facade, fun h => hb.used (used_of_pop ha ?_)⟩
    · intro _
      rw [managerAlive_push]
      simp [Task.leavesManager]
    · simpa [State.push, Task.leavesMount] using h

/-- Nobody brings a manager back. -/
theorem Effect.alive_of_alive (h : Effect b task { b with agenda := rest } t)
    (ha : b.agenda = task :: rest) (hb : b.Backed) (ht : t.managerAlive) : b.managerAlive := by
  have manager : rest.any Task.leavesManager → b.agenda.any Task.leavesManager := by
    intro h
    rw [ha, List.any_cons, h, Bool.or_true]
  cases h with
  | change quiet stays h =>
    rw [h.stays.1, (stays_of_pop ha stays).1] at ht
    exact ht
  | settle h pass k =>
    rw [k.stays.1, pass.stays.1, h.stays.1, (stays_of_pop ha pass.leaves_eq_false).1] at ht
    exact ht
  | keepManager | dropManager => simp [managerAlive, ha, Task.leavesManager]
  | keepMount | dropMount =>
    refine managerAlive_of_inUse ?_
    have hm := hb.used (by rw [ha]; rfl)
    rw [isSome_mount?, ha]
    revert hm
    cases b.mount <;> simp [Task.leavesMount]

theorem Effect.settings? (h : Effect b task { b with agenda := rest } t) :
    t.settings? = b.settings? := by
  cases h with
  | change _ _ h => exact h.settings?
  | settle h pass k =>
    have passed := congrArg (Option.map (·.settings)) pass.frame.2.2.2.1
    exact k.settings?.trans (passed.trans h.settings?)
  | keepManager | dropManager | keepMount | dropMount => rfl

/-- Taking a mount down leaves it down. -/
theorem up_takeDown (s : State) : s.takeDown.up = false := by
  unfold State.takeDown
  split
  · rename_i m hm
    split
    · unfold State.drain
      dsimp only
      split <;> rfl
    · rename_i down
      rw [up_of_mount hm]
      simpa using down
  · rename_i hm
    rw [State.up, hm]
    rfl

theorem Effect.attended (h : Effect b task { b with agenda := rest } t)
    (ha : b.agenda = task :: rest) (hb : b.Attended) (down : task = .takeDown → t.up = false) :
    t.Attended := by
  intro ht
  have other : task ≠ .takeDown := by
    intro htask
    rw [down htask] at ht
    cases ht
  -- A task to take the mount down is still ahead.
  have ahead : ∀ {u : State}, rest <:+ u.agenda → (∃ front back,
      b.agenda = front ++ .takeDown :: back ∧ back.any Task.leavesManager) →
      ∃ front back, u.agenda = front ++ .takeDown :: back ∧ back.any Task.leavesManager := by
    rintro u ⟨new, hnew⟩ ⟨front, back, hf, hback⟩
    cases front with
    | nil =>
      rw [ha, List.nil_append, List.cons_eq_cons] at hf
      exact (other hf.1).elim
    | cons first front =>
      rw [ha, List.cons_append, List.cons_eq_cons] at hf
      refine ⟨new ++ front, back, ?_, hback⟩
      rw [← hnew, hf.2, List.append_assoc]
  cases h with
  | change quiet stays h =>
    refine (hb (h.up_of_up ht)).imp ?_ (ahead h.suffix)
    intro inUse
    rw [h.stays.2, (stays_of_pop ha stays).2]
    exact inUse
  | settle h pass k =>
    have hu := k.up_of_up ht
    rw [State.up, pass.frame.2.2.2.1] at hu
    refine (hb (h.up_of_up hu)).imp ?_ (ahead ?_)
    · intro inUse
      rw [k.stays.2, pass.stays.2, h.stays.2, (stays_of_pop ha pass.leaves_eq_false).2]
      exact inUse
    · obtain ⟨-, -, -, -, -, tasks, agenda, -⟩ := pass.frame
      exact h.suffix.trans (.trans ⟨tasks, agenda.symm⟩ k.suffix)
  | keepManager alive =>
    refine (hb ht).imp ?_ (ahead List.suffix_rfl)
    intro inUse
    rw [← inUse]
    exact inUse_congr rfl (by rw [ha]; rfl)
  | dropManager gone =>
    exfalso
    have inUse : ({ b with agenda := rest } : State).mount?.isSome = b.mount?.isSome :=
      inUse_congr rfl (by rw [ha]; rfl)
    simp only [managerAlive, Bool.or_eq_false_iff] at gone
    rcases hb ht with hu | hf
    · rw [← inUse, gone.1.2] at hu
      cases hu
    · obtain ⟨front, back, hr, hback⟩ := ahead (u := { b with agenda := rest }) List.suffix_rfl hf
      change rest = _ at hr
      have := gone.2
      rw [hr] at this
      simp [hback] at this
  | keepMount inUse => exact .inl inUse
  | dropMount gone => exact .inr ⟨[], .leaveManager :: rest, rfl, rfl⟩

/-! ## A run -/

/-- What is kept in use, all in all. -/
structure Upkeep (s : State) : Prop extends Backed s where
  attended : s.Attended

theorem Start.upkeep (h : Start s) : s.Upkeep := by
  cases h with
  | manager privateIds timersRun horizon =>
    refine ⟨⟨fun h => (h rfl).elim, fun p hp => (List.not_mem_nil hp).elim, ?_⟩, ?_⟩
    · intro h
      cases h
    · intro h
      cases h
  | mount settings link timersRun firstId horizon =>
    refine ⟨⟨fun h => (h rfl).elim, fun p hp => (List.not_mem_nil hp).elim, ?_⟩, ?_⟩
    · intro h
      cases h
    · exact fun _ => .inl rfl

/-- What a step of a run does. -/
theorem Upkeep.exists_effect (hs : s.Upkeep) (fair : ¬ s.Trespasses) (h : s.step = some t) :
    ∃ task rest, s.agenda = task :: rest ∧ Effect s task { s with agenda := rest } t :=
  exists_effect_of_step hs.live fair h

theorem Next.upkeep (h : Next s t) (hs : s.Upkeep) : t.Upkeep := by
  cases h with
  | work h fair =>
    obtain ⟨task, rest, ha, e⟩ := hs.exists_effect fair h
    refine ⟨e.backed ha hs.toBacked, e.attended ha hs.attended ?_⟩
    intro htask
    rw [step_of_agenda ha, Option.some.injEq, htask] at h
    rw [← h]
    exact up_takeDown _
  | call call self =>
    have pushed : Change s (.issue call self) s (s.push [.issue call self]) := .again s call self
    refine ⟨pushed.backed hs.toBacked, fun hu => (hs.attended hu).imp ?_ ?_⟩
    · intro inUse
      rw [pushed.stays.2]
      exact inUse
    · rintro ⟨front, back, ha, hb⟩
      exact ⟨.issue call self :: front, back, congrArg (Task.issue call self :: ·) ha, hb⟩
  | rewind n => exact ⟨⟨hs.live, hs.facade, hs.used⟩, hs.attended⟩

theorem Reaches.upkeep (h : Reaches s t) (hs : s.Upkeep) : t.Upkeep :=
  h.invariant hs fun _ _ _ hn hu => hn.upkeep hu

theorem Next.alive_of_alive (h : Next s t) (hs : s.Upkeep) (ht : t.managerAlive) :
    s.managerAlive := by
  cases h with
  | work h fair =>
    obtain ⟨task, rest, ha, e⟩ := hs.exists_effect fair h
    exact e.alive_of_alive ha hs.toBacked ht
  | call call self =>
    have pushed : Change s (.issue call self) s (s.push [.issue call self]) := .again s call self
    rw [pushed.stays.1] at ht
    exact ht
  | rewind n => exact ht

/-- A manager that is gone does not come back. -/
theorem Next.gone_of_gone (h : Next s t) (hs : s.Upkeep) (gone : s.managerAlive = false) :
    t.managerAlive = false := by
  have alive := h.alive_of_alive hs
  rw [gone] at alive
  simpa using alive

theorem Next.settings? (h : Next s t) (hs : s.Upkeep) : t.settings? = s.settings? := by
  cases h with
  | work h fair =>
    obtain ⟨task, rest, ha, e⟩ := hs.exists_effect fair h
    exact e.settings?
  | call | rewind => rfl

theorem Reaches.settings? (h : Reaches s t) (hs : s.Upkeep) : t.settings? = s.settings? :=
  h.invariant (P := fun t => t.settings? = s.settings?) rfl fun _ _ hu hn same =>
    (hn.settings? (hu.upkeep hs)).trans same

/-- Once nobody holds the mount and nothing is under way, no operation is outstanding; the
same holds once it is down. -/
theorem Upkeep.held_of_outstanding {p : Pending} (hs : s.Upkeep) (hp : p ∈ s.ledger.entries)
    (ho : p.owner.isOperation) (idle : s.agenda = []) : s.up ∧ s.heldMount?.isSome := by
  have up := hs.facade p hp ho
  refine ⟨up, ?_⟩
  rcases hs.attended up with inUse | ⟨front, back, ha, -⟩
  · rw [isSome_mount?, idle] at inUse
    rw [heldMount?, Option.isSome_filter]
    simpa using inUse
  · rw [idle] at ha
    simp at ha

end FileRelay.State
