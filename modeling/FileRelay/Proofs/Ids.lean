import FileRelay.Engine.PoolCall
import FileRelay.Mount.OpenFiles

/-!
# The ids in use

What the operations of the id pool and of the table of open files do to the ids in use.
A pool is *sound* if it counts no id twice, and never zero.
-/

namespace FileRelay

/-- Of elements that differ in `f`, taking those out that share `f` with one takes that one
out alone. -/
theorem perm_cons_filter_ne {α β : Type} [DecidableEq β] {f : α → β} {l : List α} {a : α}
    (h : (l.map f).Nodup) (ha : a ∈ l) : l.Perm (a :: l.filter fun x => f x ≠ f a) := by
  induction l with
  | nil => exact (List.not_mem_nil ha).elim
  | cons head rest ih =>
    rw [List.map_cons, List.nodup_cons] at h
    by_cases hf : f head = f a
    · have others : ∀ x ∈ rest, f x ≠ f a := by
        intro x hx hxa
        exact h.1 (hf ▸ hxa ▸ List.mem_map_of_mem hx)
      have same : head = a := by
        rcases List.mem_cons.1 ha with rfl | hm
        · rfl
        · exact (others a hm rfl).elim
      subst same
      have hr : rest.filter (fun x => decide (f x ≠ f head)) = rest := by
        rw [List.filter_eq_self]
        intro x hx
        simpa using others x hx
      rw [List.filter_cons_of_neg (by simp), hr]
    · have hm : a ∈ rest := by
        rcases List.mem_cons.1 ha with rfl | hm
        · exact (hf rfl).elim
        · exact hm
      rw [List.filter_cons_of_pos (by simpa using hf)]
      exact ((ih h.2 hm).cons head).trans (.swap _ _ _)

namespace IdPool

variable {pool after : IdPool} {id : UInt32} {ids : List UInt32}

/-- Whether no id counts as in use twice, and zero never. -/
structure Sound (pool : IdPool) : Prop where
  nodup : pool.live.Nodup
  zero : 0 ∉ pool.live

/-- Taking ids that are free, and not twice, keeps a pool sound. -/
theorem Sound.gain (h : pool.Sound) (nodup : ids.Nodup) (zero : 0 ∉ ids)
    (free : ∀ id ∈ ids, id ∉ pool.live) (live : after.live.Perm (ids ++ pool.live)) :
    after.Sound where
  nodup := by
    rw [live.nodup_iff, List.nodup_append]
    refine ⟨nodup, h.nodup, ?_⟩
    rintro id hid _ hlive rfl
    exact free id hid hlive
  zero := by
    intro hz
    rcases List.mem_append.1 (live.mem_iff.1 hz) with hz | hz
    · exact zero hz
    · exact h.zero hz

theorem Sound.lose (h : pool.Sound) (live : after.live.Sublist pool.live) : after.Sound :=
  ⟨h.nodup.sublist live, fun hz => h.zero (live.subset hz)⟩

/-- A fresh id is neither zero nor in use. -/
theorem next?_spec (h : pool.next? = some (id, after)) :
    id ≠ 0 ∧ id ∉ pool.live ∧ after.live = id :: pool.live := by
  rw [next?, Option.map_eq_some_iff] at h
  obtain ⟨n, hn, hp⟩ := h
  cases hp
  have free := isFree_iff.1 (isFree_of_firstFree hn)
  exact ⟨free.1, free.2, rfl⟩

theorem reserve?_spec (h : pool.reserve? id = some after) :
    id ≠ 0 ∧ id ∉ pool.live ∧ after.live = id :: pool.live := by
  rw [reserve?] at h
  split at h
  · rename_i free
    cases h
    exact ⟨(isFree_iff.1 free).1, (isFree_iff.1 free).2, rfl⟩
  · cases h

theorem Sound.cons (h : pool.Sound) (nonzero : id ≠ 0) (free : id ∉ pool.live)
    (live : after.live = id :: pool.live) : after.Sound := by
  have single : [id].Nodup := by simp
  have zero : 0 ∉ [id] := by simpa using nonzero.symm
  refine h.gain single zero (by simpa using free) ?_
  rw [live, List.singleton_append]

theorem live_release_sublist (pool : IdPool) (id : UInt32) :
    (pool.release id).live.Sublist pool.live := List.filter_sublist

theorem live_releaseAll_sublist (pool : IdPool) (ids : List UInt32) :
    (pool.releaseAll ids).live.Sublist pool.live := by
  induction ids generalizing pool with
  | nil => exact .refl _
  | cons id ids ih => exact (ih _).trans (live_release_sublist pool id)

theorem mem_live_releaseAll {x : UInt32} :
    x ∈ (pool.releaseAll ids).live ↔ x ∈ pool.live ∧ x ∉ ids := by
  induction ids generalizing pool with
  | nil => simp [releaseAll]
  | cons id ids ih =>
    have h := @ih (pool.release id)
    rw [mem_live_release] at h
    rw [releaseAll, List.foldl_cons, List.mem_cons, not_or, ← and_assoc]
    exact h

/-- Freeing ids that are in use, and not twice, frees each of them. -/
theorem Sound.live_perm_releaseAll (h : pool.Sound) (nodup : ids.Nodup)
    (live : ∀ id ∈ ids, id ∈ pool.live) : pool.live.Perm (ids ++ (pool.releaseAll ids).live) := by
  have after := h.nodup.sublist (live_releaseAll_sublist pool ids)
  have both : (ids ++ (pool.releaseAll ids).live).Nodup := by
    rw [List.nodup_append]
    refine ⟨nodup, after, ?_⟩
    rintro id hid _ hrest rfl
    exact (mem_live_releaseAll.1 hrest).2 hid
  rw [List.perm_ext_iff_of_nodup h.nodup both]
  intro x
  rw [List.mem_append, mem_live_releaseAll]
  by_cases hx : x ∈ ids
  · simp [hx, live x hx]
  · simp [hx]

/-- Several fresh ids are taken one after the other. -/
theorem Sound.nextMany (h : pool.Sound) (n : Nat) :
    (pool.nextMany n).2.Sound ∧ ∀ id ∈ pool.live, id ∈ (pool.nextMany n).2.live := by
  induction n generalizing pool with
  | zero => exact ⟨h, fun _ hid => hid⟩
  | succ n ih =>
    rw [IdPool.nextMany]
    cases hn : pool.next? with
    | none => exact ⟨h, fun _ hid => hid⟩
    | some drawn =>
      obtain ⟨id, after⟩ := drawn
      obtain ⟨nonzero, free, live⟩ := next?_spec hn
      obtain ⟨sound, sub⟩ := ih (h.cons nonzero free live)
      refine ⟨sound, fun x hx => sub x ?_⟩
      rw [live]
      exact List.mem_cons_of_mem _ hx

/-- A call on a pool keeps it sound, and frees no id but the one that it is to release. -/
theorem Sound.serve? (h : pool.Sound) {call : PoolCall} {self : RequestId} {answer : Answer}
    (hs : call.serve? pool self = some (after, answer)) :
    after.Sound ∧ ∀ id ∈ pool.live, id ∉ after.live →
      ∃ ref, call = .release ref ∧ (ref.resolve self).val = id := by
  cases call with
  | next =>
    rw [PoolCall.serve?, Option.map_eq_some_iff] at hs
    obtain ⟨⟨id, drawn⟩, hn, he⟩ := hs
    cases he
    obtain ⟨nonzero, free, live⟩ := next?_spec hn
    refine ⟨h.cons nonzero free live, fun x hx hn => (hn ?_).elim⟩
    rw [live]
    exact List.mem_cons_of_mem _ hx
  | nextMany count =>
    rw [PoolCall.serve?] at hs
    dsimp only at hs
    split at hs
    · cases hs
      exact ⟨(h.nextMany count).1, fun x hx hn => (hn ((h.nextMany count).2 x hx)).elim⟩
    · cases hs
  | reserve ref =>
    rw [PoolCall.serve?] at hs
    split at hs
    · rename_i hr
      cases hs
      obtain ⟨nonzero, free, live⟩ := reserve?_spec hr
      refine ⟨h.cons nonzero free live, fun x hx hn => (hn ?_).elim⟩
      rw [live]
      exact List.mem_cons_of_mem _ hx
    · cases hs
      exact ⟨h, fun x hx hn => (hn hx).elim⟩
  | release ref =>
    cases hs
    refine ⟨h.lose (live_release_sublist _ _), fun x hx hn => ⟨ref, rfl, ?_⟩⟩
    by_cases he : x = (ref.resolve self).val
    · exact he.symm
    · exact (hn (mem_live_release.2 ⟨hx, he⟩)).elim
  | isLive | liveCount | rewind =>
    cases hs
    exact ⟨⟨h.nodup, h.zero⟩, fun x hx hn => (hn hx).elim⟩

end IdPool

/-! ## The table of open files -/

namespace OpenFiles

variable {table after : OpenFiles} {pool rest : IdPool} {id : HandleId}

/-- A file of a new id is put beside the others. -/
theorem insertInto_perm {file : OpenFile} {files : List OpenFile}
    (h : ∀ other ∈ files, other.id ≠ file.id) : (insertInto file files).Perm (file :: files) := by
  induction files with
  | nil => exact .refl _
  | cons head tail ih =>
    rw [insertInto]
    split
    · exact .refl _
    · rw [if_neg fun he => h head List.mem_cons_self he.symm]
      have hp := ih fun other ho => h other (List.mem_cons_of_mem _ ho)
      exact (hp.cons head).trans (.swap _ _ _)

/-- A file is recorded under a fresh handle id.  It holds the id of its opener exactly if
that is free once the handle id has been drawn. -/
theorem add?_spec {path : String} {mode : OpenMode} {openedBy : RequestId}
    (h : table.add? pool path mode openedBy = some (id, after, rest)) :
    ∃ file : OpenFile, file.id = id ∧ file.path = path ∧ file.mode = mode ∧
      file.openedBy = openedBy ∧ file.closing = false ∧
      (file.holdsOpener ↔ openedBy.val ≠ 0 ∧ openedBy.val ≠ id.val ∧ openedBy.val ∉ pool.live) ∧
      after.files = insertInto file table.files ∧
      file.ownedIds.Nodup ∧ 0 ∉ file.ownedIds ∧ (∀ x ∈ file.ownedIds, x ∉ pool.live) ∧
      rest.live.Perm (file.ownedIds ++ pool.live) := by
  rw [add?] at h
  cases hn : pool.next? with
  | none => rw [hn] at h; cases h
  | some drawn =>
    obtain ⟨n, taken⟩ := drawn
    obtain ⟨nonzero, free, live⟩ := IdPool.next?_spec hn
    rw [hn] at h
    dsimp only at h
    cases hr : taken.reserve? openedBy.val with
    | none =>
      have notFree : ¬ taken.isFree openedBy.val := by
        intro hf
        rw [IdPool.reserve?, if_pos hf] at hr
        cases hr
      rw [IdPool.isFree_iff, live, List.mem_cons, not_or] at notFree
      rw [hr] at h
      cases h
      refine ⟨_, rfl, rfl, rfl, rfl, rfl, ?_, rfl, ?_, ?_, ?_, ?_⟩
      · simpa using notFree
      · simp [OpenFile.ownedIds]
      · simpa [OpenFile.ownedIds] using nonzero.symm
      · simpa [OpenFile.ownedIds] using free
      · rw [live]
        exact .refl _
    | some held =>
      rw [hr] at h
      cases h
      obtain ⟨openerNonzero, openerFree, openerLive⟩ := IdPool.reserve?_spec hr
      rw [live, List.mem_cons, not_or] at openerFree
      refine ⟨_, rfl, rfl, rfl, rfl, rfl, ?_, rfl, ?_, ?_, ?_, ?_⟩
      · simpa using ⟨openerNonzero, openerFree.1, openerFree.2⟩
      · simpa [OpenFile.ownedIds] using Ne.symm openerFree.1
      · simpa [OpenFile.ownedIds] using ⟨nonzero.symm, openerNonzero.symm⟩
      · simpa [OpenFile.ownedIds] using ⟨free, openerFree.2⟩
      · rw [openerLive, live]
        exact .swap _ _ _

theorem remove?_spec {file : OpenFile} (h : table.remove? pool id = some (file, after, rest)) :
    file ∈ table.files ∧ file.id = id ∧ after.files = table.files.filter (·.id ≠ file.id) ∧
      rest = pool.releaseAll file.ownedIds := by
  rw [remove?, Option.map_eq_some_iff] at h
  obtain ⟨found, hf, he⟩ := h
  cases he
  have hid : file.id = id := by simpa using List.find?_some hf
  exact ⟨List.mem_of_find?_eq_some hf, hid, by rw [hid], rfl⟩

/-- Marking a file leaves all ids as they are. -/
theorem ownedIds_mark (table : OpenFiles) (id : HandleId) (closing : Bool) :
    (table.mark id closing).files.flatMap OpenFile.ownedIds =
      table.files.flatMap OpenFile.ownedIds := by
  rw [mark, List.flatMap_map]
  refine congrArg (List.flatMap · table.files) (funext ?_)
  intro file
  split <;> rfl

/-- The handle ids are among the ids that open files keep in use. -/
theorem ids_sublist (files : List OpenFile) :
    (files.map (·.id.val)).Sublist (files.flatMap OpenFile.ownedIds) := by
  induction files with
  | nil => exact .refl _
  | cons file rest ih =>
    rw [List.map_cons, List.flatMap_cons, OpenFile.ownedIds, List.cons_append]
    exact (ih.trans (List.sublist_append_right _ _)).cons_cons _

theorem releaseAll_eq (table : OpenFiles) (pool : IdPool) :
    table.releaseAll pool = pool.releaseAll (table.files.flatMap OpenFile.ownedIds) := by
  obtain ⟨files⟩ := table
  rw [releaseAll]
  induction files generalizing pool with
  | nil => rfl
  | cons file rest ih =>
    rw [List.foldl_cons, ih, List.flatMap_cons, IdPool.releaseAll, IdPool.releaseAll,
      IdPool.releaseAll, List.foldl_append]

end OpenFiles

end FileRelay
