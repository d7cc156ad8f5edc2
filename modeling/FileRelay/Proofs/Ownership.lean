import Mathlib.Data.List.Nodup
import FileRelay.Proofs.Ids
import FileRelay.Proofs.Upkeep

/-!
# Who owns an id

Every id of the pool that is in use has one owner: an outstanding request, an open file
under whose handle id it stands, or an open file that keeps the id of its opener.  Nobody
else uses the pool of a mount, so there the ids in use are exactly those owned.

The id of an opener changes hands: it is freed when the request that opens the file leaves
the ledger, and put in use again only when the file enters the table.  Whatever comes
between may take it.
-/

namespace FileRelay.State

variable {b s t u v : State} {task : Task} {rest : List Task}

/-! ## Ids in use and ids owned -/

/-- The ids owned are in use, none of them twice.  In a pool that is shared with nobody
there are no others, as long as there are ledger and table to own them. -/
structure Accounted (s : State) : Prop where
  sound : s.pool.Sound
  nodup : s.ownedIds.Nodup
  live : ∀ id ∈ s.ownedIds, id ∈ s.pool.live
  owned : s.callerPool.isSome → s.managerAlive → ∀ id ∈ s.pool.live, id ∈ s.ownedIds

theorem mem_ownedIds_id (file : OpenFile) : file.id.val ∈ file.ownedIds := by
  rw [OpenFile.ownedIds]
  exact List.mem_cons_self

theorem openFiles_of_mount {m : Mount} (hm : s.mount = some m) : s.openFiles = m.files.files := by
  rw [openFiles, hm]

theorem requests_sublist (s : State) : (s.ledger.entries.map (·.id.val)).Sublist s.ownedIds :=
  List.sublist_append_left _ _

theorem files_sublist (s : State) : (s.openFiles.flatMap OpenFile.ownedIds).Sublist s.ownedIds :=
  List.sublist_append_right _ _

namespace Accounted

theorem of_eq (h : s.Accounted) (ids : t.ownedIds = s.ownedIds) (pool : t.pool.live = s.pool.live)
    (shared : t.callerPool.isSome = s.callerPool.isSome)
    (alive : t.managerAlive → s.managerAlive) : t.Accounted where
  sound := ⟨pool ▸ h.sound.nodup, pool ▸ h.sound.zero⟩
  nodup := ids ▸ h.nodup
  live := by
    rw [ids, pool]
    exact h.live
  owned := by
    intro hc ha
    rw [ids, pool]
    exact h.owned (shared ▸ hc) (alive ha)

/-- Ids that were free come to be owned. -/
theorem gain (h : s.Accounted) (ids : List UInt32) (owned : t.ownedIds.Perm (ids ++ s.ownedIds))
    (live : t.pool.live.Perm (ids ++ s.pool.live)) (nodup : ids.Nodup) (zero : 0 ∉ ids)
    (free : ∀ id ∈ ids, id ∉ s.pool.live) (shared : t.callerPool.isSome = s.callerPool.isSome)
    (alive : t.managerAlive = s.managerAlive) : t.Accounted where
  sound := h.sound.gain nodup zero free live
  nodup := by
    rw [owned.nodup_iff, List.nodup_append]
    refine ⟨nodup, h.nodup, ?_⟩
    rintro id hid _ hs rfl
    exact free id hid (h.live id hs)
  live := by
    intro id hid
    rw [live.mem_iff, List.mem_append]
    exact (List.mem_append.1 (owned.mem_iff.1 hid)).imp_right (h.live id)
  owned := by
    intro hc ha id hid
    rw [owned.mem_iff, List.mem_append]
    rw [live.mem_iff, List.mem_append] at hid
    exact hid.imp_right (h.owned (shared ▸ hc) (alive ▸ ha) id)

/-- Ids that were owned are freed. -/
theorem lose (h : s.Accounted) (ids : List UInt32) (owned : s.ownedIds.Perm (ids ++ t.ownedIds))
    (pool : t.pool = s.pool.releaseAll ids)
    (shared : t.callerPool.isSome = s.callerPool.isSome)
    (alive : t.managerAlive = s.managerAlive) : t.Accounted := by
  have nodup := owned.nodup_iff.1 h.nodup
  rw [List.nodup_append] at nodup
  refine ⟨h.sound.lose ?_, nodup.2.1, ?_, ?_⟩
  · rw [pool]
    exact IdPool.live_releaseAll_sublist _ _
  · intro id hid
    rw [pool, IdPool.mem_live_releaseAll]
    refine ⟨h.live id (owned.mem_iff.2 (List.mem_append_right _ hid)), ?_⟩
    intro hids
    exact nodup.2.2 id hids id hid rfl
  · intro hc ha id hid
    rw [pool, IdPool.mem_live_releaseAll] at hid
    have hs := owned.mem_iff.1 (h.owned (shared ▸ hc) (alive ▸ ha) id hid.1)
    exact (List.mem_append.1 hs).resolve_left hid.2

/-- No two requests are outstanding under one id. -/
theorem nodup_ids (h : s.Accounted) : (s.ledger.entries.map (·.id)).Nodup := by
  have hn := (List.nodup_append.1 h.nodup).1
  have he : s.ledger.entries.map (·.id.val) = (s.ledger.entries.map (·.id)).map (·.val) := by
    rw [List.map_map]
    rfl
  exact List.Nodup.of_map _ (he ▸ hn)

/-- No two files are open under one handle id. -/
theorem nodup_handles (h : s.Accounted) : (s.openFiles.map (·.id)).Nodup := by
  have hn := ((List.nodup_append.1 h.nodup).2.1).sublist (OpenFiles.ids_sublist s.openFiles)
  have he : s.openFiles.map (·.id.val) = (s.openFiles.map (·.id)).map (·.val) := by
    rw [List.map_map]
    rfl
  exact List.Nodup.of_map _ (he ▸ hn)

/-- A fresh id is nobody's. -/
theorem fresh (h : s.Accounted) {id : UInt32} {pool : IdPool}
    (drawn : s.pool.next? = some (id, pool)) : id ∉ s.ownedIds :=
  fun hid => (IdPool.next?_spec drawn).2.1 (h.live id hid)

/-- A request registered under a fresh id is added to the others. -/
theorem entries_insert (h : s.Accounted) {p : Pending} {pool : IdPool}
    (drawn : s.pool.next? = some (p.id.val, pool)) :
    (s.ledger.insert p).entries = s.ledger.entries ++ [p] := by
  rw [Ledger.insert]
  dsimp only
  congr 1
  rw [List.filter_eq_self]
  intro q hq
  rw [decide_eq_true_eq]
  intro he
  refine h.fresh drawn (List.mem_append_left _ ?_)
  rw [← he]
  exact List.mem_map_of_mem (f := fun p : Pending => p.id.val) hq

/-- A file put at its place under a fresh id is added to the others. -/
theorem perm_insertInto (h : s.Accounted) {m : Mount} (hm : s.mount = some m) {file : OpenFile}
    (fresh : file.id.val ∉ s.pool.live) :
    (OpenFiles.insertInto file m.files.files).Perm (file :: s.openFiles) := by
  rw [← openFiles_of_mount hm]
  refine OpenFiles.insertInto_perm fun other ho he => fresh (h.live _ ?_)
  refine List.mem_append_right _ (List.mem_flatMap.2 ⟨other, ho, ?_⟩)
  rw [← he]
  exact mem_ownedIds_id other

/-- A file recorded under a fresh id is added to the others. -/
theorem files_add (h : s.Accounted) {m : Mount} {path : String} {mode : OpenMode}
    {openedBy : RequestId} {id : HandleId} {files : OpenFiles} {pool : IdPool}
    (hm : s.mount = some m)
    (added : m.files.add? s.pool path mode openedBy = some (id, files, pool)) :
    ∃ file : OpenFile, file.id = id ∧ file.openedBy = openedBy ∧
      (file.holdsOpener ↔
        openedBy.val ≠ 0 ∧ openedBy.val ≠ id.val ∧ openedBy.val ∉ s.pool.live) ∧
      files.files.Perm (file :: s.openFiles) ∧ file.ownedIds.Nodup ∧ 0 ∉ file.ownedIds ∧
      (∀ x ∈ file.ownedIds, x ∉ s.pool.live) ∧ pool.live.Perm (file.ownedIds ++ s.pool.live) := by
  obtain ⟨file, hid, -, -, opener, -, holds, hfiles, nodup, zero, free, live⟩ :=
    OpenFiles.add?_spec added
  refine ⟨file, hid, opener, holds, ?_, nodup, zero, free, live⟩
  rw [hfiles]
  exact h.perm_insertInto hm (free _ (mem_ownedIds_id file))

end Accounted

/-- What a move does to the ids in use and to their owners. -/
theorem Move.accounted (h : Move b task s t) (hs : s.Accounted) : t.Accounted := by
  have alive := h.stays.1
  cases h with
  | keep h =>
    obtain ⟨f, hf, entries⟩ := h.entries
    refine hs.of_eq ?_ (by rw [h.pool]) h.shared fun ht => alive ▸ ht
    rw [ownedIds, ownedIds, entries, h.openFiles, List.map_map]
    congr 1
    apply List.map_congr_left
    intro p _
    exact congrArg RequestId.val (hf p).id
  | @register p pool _ _ _ drawn =>
    obtain ⟨nonzero, free, live⟩ := IdPool.next?_spec drawn
    refine hs.gain [p.id.val] ?_ ?_ (by simp) ?_ ?_ rfl alive
    · rw [ownedIds, hs.entries_insert drawn, List.map_append, List.append_assoc]
      exact List.perm_middle
    · exact live ▸ .refl _
    · simpa using nonzero.symm
    · simpa using free
  | @pull p ending mem =>
    refine hs.lose [p.id.val] ?_ rfl rfl alive
    exact ((perm_cons_filter_ne hs.nodup_ids mem).map _).append_right _
  | @drain mount _ down =>
    refine hs.lose (s.ledger.entries.map (·.id.val)) ?_ rfl rfl alive
    have files : openFiles { s with mount } = s.openFiles := by
      rcases down with rfl | rfl
      · rfl
      · rw [openFiles, openFiles]
        cases s.mount <;> rfl
    rw [ownedIds, ← files]
    exact .refl _
  | mark id closing hm =>
    refine hs.of_eq ?_ rfl rfl fun ht => alive ▸ ht
    rw [ownedIds, ownedIds, openFiles_of_mount hm]
    exact congrArg (s.ledger.entries.map (·.id.val) ++ ·) (OpenFiles.ownedIds_mark _ id closing)
  | @add m path mode openedBy id files pool hm added =>
    obtain ⟨file, -, -, -, perm, nodup, zero, free, live⟩ := hs.files_add hm added
    refine hs.gain file.ownedIds ?_ live nodup zero free rfl alive
    rw [openFiles_of_mount hm] at perm
    rw [ownedIds, ownedIds, openFiles_of_mount hm]
    refine ((perm.flatMap_right OpenFile.ownedIds).append_left _).trans ?_
    rw [List.flatMap_cons, ← List.append_assoc, ← List.append_assoc]
    exact List.perm_append_comm.append_right _
  | @remove m id file files pool hm removed =>
    obtain ⟨mem, -, hfiles, hpool⟩ := OpenFiles.remove?_spec removed
    refine hs.lose file.ownedIds ?_ hpool rfl alive
    have nodup := hs.nodup_handles
    rw [openFiles_of_mount hm] at nodup
    have perm := perm_cons_filter_ne nodup mem
    rw [← hfiles] at perm
    rw [ownedIds, ownedIds, openFiles_of_mount hm]
    refine ((perm.flatMap_right OpenFile.ownedIds).append_left _).trans ?_
    rw [List.flatMap_cons, ← List.append_assoc, ← List.append_assoc]
    exact List.perm_append_comm.append_right _
  | @clear m hm =>
    refine hs.lose (m.files.files.flatMap OpenFile.ownedIds) ?_ ?_ rfl alive
    · rw [ownedIds, ownedIds, openFiles_of_mount hm]
      refine List.perm_append_comm.trans (.append_left _ ?_)
      rw [openFiles, List.flatMap_nil, List.append_nil]
    · exact OpenFiles.releaseAll_eq m.files s.pool
  | @share pool call self answer asked shared served fair =>
    obtain ⟨sound, freed⟩ := hs.sound.serve? served
    refine ⟨sound, hs.nodup, ?_, ?_⟩
    · intro id hid
      by_cases hl : id ∈ pool.live
      · exact hl
      · obtain ⟨ref, hcall, href⟩ := freed id (hs.live id hid) hl
        exact (fair ref hcall (href ▸ hid)).elim
    · intro hc
      rw [shared] at hc
      cases hc

theorem Change.accounted (h : Change b task s t) (hs : s.Accounted) : t.Accounted := by
  induction h with
  | refl => exact hs
  | tail _ hm ih => exact hm.accounted ih

theorem Pass.accounted (h : Pass task s t) (hs : s.Accounted) : t.Accounted := by
  obtain ⟨ledger, pool, caller, mount, -⟩ := h.frame
  refine hs.of_eq ?_ (by rw [pool]) (by rw [caller]) fun ht => h.stays.1 ▸ ht
  rw [ownedIds, ownedIds, openFiles, openFiles, ledger, mount]

theorem alive_of_pop (ha : b.agenda = task :: rest)
    (h : ({ b with agenda := rest } : State).managerAlive) : b.managerAlive := by
  have hb : ({ b with agenda := rest } : State).push [task] = b := by
    cases b
    cases ha
    rfl
  rw [← hb]
  exact managerAlive_push_of_alive h _

theorem Accounted.pop (h : b.Accounted) (ha : b.agenda = task :: rest) :
    ({ b with agenda := rest } : State).Accounted :=
  h.of_eq rfl rfl rfl (alive_of_pop ha)

theorem Effect.accounted (h : Effect b task { b with agenda := rest } t)
    (ha : b.agenda = task :: rest) (hb : b.Backed) (hs : b.Accounted) : t.Accounted := by
  have alive := h.alive_of_alive ha hb
  have hp := hs.pop ha
  cases h with
  | change _ _ h => exact h.accounted hp
  | settle h pass k => exact k.accounted (pass.accounted (h.accounted hp))
  | keepManager | keepMount => exact hp
  | dropManager gone =>
    have sub := files_sublist b
    exact ⟨hs.sound, hs.nodup.sublist sub, fun id hid => hs.live id (sub.subset hid),
      fun _ ht => absurd ht (by rw [← Bool.not_eq_true] at gone; exact gone)⟩
  | dropMount => exact hs.of_eq rfl rfl rfl alive

theorem Start.accounted (h : Start s) : s.Accounted := by
  cases h <;> exact ⟨⟨.nil, List.not_mem_nil⟩, .nil, fun _ h => h, fun _ _ _ h => h⟩

theorem Next.accounted (h : Next s t) (hu : s.Upkeep) (hs : s.Accounted) : t.Accounted := by
  cases h with
  | work h fair =>
    obtain ⟨task, rest, ha, e⟩ := hu.exists_effect fair h
    exact e.accounted ha hu.toBacked hs
  | call call self =>
    have pushed : Change s (.issue call self) s (s.push [.issue call self]) := .again s call self
    exact pushed.accounted hs
  | rewind n => exact hs.of_eq rfl rfl rfl id

/-- The invariants of a run. -/
structure Sane (s : State) : Prop where
  upkeep : s.Upkeep
  accounted : s.Accounted

theorem Start.sane (h : Start s) : s.Sane := ⟨h.upkeep, h.accounted⟩

theorem Next.sane (h : Next s t) (hs : s.Sane) : t.Sane :=
  ⟨h.upkeep hs.upkeep, h.accounted hs.upkeep hs.accounted⟩

theorem Reaches.sane (h : Reaches s t) (hs : s.Sane) : t.Sane :=
  h.invariant hs fun _ _ _ hn hu => hn.sane hu

/-! ## Who shares the pool -/

theorem Move.shared_eq (h : Move b task s t) : t.callerPool.isSome = s.callerPool.isSome := by
  cases h with
  | keep h => exact h.shared
  | register | pull | drain | mark | add | remove | clear | share => rfl

theorem Change.shared_eq (h : Change b task s t) : t.callerPool.isSome = s.callerPool.isSome := by
  induction h with
  | refl => rfl
  | tail _ hm ih => exact hm.shared_eq.trans ih

theorem Effect.shared_eq (h : Effect b task s t) : t.callerPool.isSome = s.callerPool.isSome := by
  cases h with
  | change _ _ h => exact h.shared_eq
  | settle h pass k => rw [k.shared_eq, pass.frame.2.2.1, h.shared_eq]
  | keepManager | dropManager | keepMount | dropMount => rfl

theorem Next.shared_eq (h : Next s t) (hs : s.Sane) :
    t.callerPool.isSome = s.callerPool.isSome := by
  cases h with
  | work h fair =>
    obtain ⟨task, rest, -, e⟩ := hs.upkeep.exists_effect fair h
    exact e.shared_eq
  | call | rewind => rfl

theorem Reaches.shared_eq (h : Reaches s t) (hs : s.Sane) :
    t.callerPool.isSome = s.callerPool.isSome :=
  h.invariant (P := fun t => t.callerPool.isSome = s.callerPool.isSome) rfl
    fun _ _ hu hn ih => (hn.shared_eq (hu.sane hs)).trans ih

end FileRelay.State
