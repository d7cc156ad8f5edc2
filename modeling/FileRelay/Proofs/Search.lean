import Mathlib.Algebra.Group.Nat.Defs
import Mathlib.Data.List.Nodup
import Mathlib.Data.List.Perm.Subperm
import Mathlib.Data.Nat.Find
import FileRelay.Proofs.Ids

/-!
# The search for a free id

A pool that is asked for an id looks at one value after the other, from its counter on, until it
comes to a free one.  Nothing bounds this search beforehand: `Search` is a search that came to its
end, after however many values.  A pool answers from as many values as there are ids in use and two
more.

The main result is that nothing is missed that way.  No id counts as in use twice, and zero never,
so of that many values in a row, all of which are different, one is free as soon as there is a free
one at all (`exists_free_candidate`).  Hence the search comes to its end, and at the first free
value.
-/

namespace FileRelay.IdPool

variable {pool after other : IdPool} {id start : UInt32} {looks k n : Nat}

/-! ## Searching -/

/-- A search that has come to its end.  The counter moved past one value after the other, and the
first free one was put in use; the number says how many values were looked at. -/
inductive Search : IdPool → Nat → UInt32 → IdPool → Prop
  | hit {pool : IdPool} (free : pool.isFree pool.next = true) :
      Search pool 1 pool.next { next := pool.next + 1, live := pool.next :: pool.live }
  | skip {pool after : IdPool} {looks : Nat} {id : UInt32} (taken : pool.isFree pool.next = false)
      (rest : Search { pool with next := pool.next + 1 } looks id after) :
      Search pool (looks + 1) id after

/-- The value that the counter comes to after moving `k` times; zero comes after the largest. -/
def candidate (pool : IdPool) (k : Nat) : UInt32 := pool.next + UInt32.ofNat k

/-- A value is the first free one after `k` others. -/
structure FirstAt (pool : IdPool) (start : UInt32) (k : Nat) : Prop where
  free : pool.isFree (start + UInt32.ofNat k) = true
  taken : ∀ j < k, pool.isFree (start + UInt32.ofNat j) = false

theorem add_ofNat_succ (start : UInt32) (k : Nat) :
    start + UInt32.ofNat (k + 1) = start + 1 + UInt32.ofNat k := by
  rw [Nat.add_comm k 1, UInt32.ofNat_add, ← UInt32.add_assoc]
  rfl

theorem FirstAt.succ_iff (taken : pool.isFree start = false) :
    pool.FirstAt start (k + 1) ↔ pool.FirstAt (start + 1) k := by
  constructor
  · rintro ⟨free, before⟩
    refine ⟨add_ofNat_succ start k ▸ free, fun j hj => ?_⟩
    rw [← add_ofNat_succ]
    exact before (j + 1) (Nat.succ_lt_succ hj)
  · rintro ⟨free, before⟩
    refine ⟨add_ofNat_succ start k ▸ free, fun j hj => ?_⟩
    cases j with
    | zero => simpa using taken
    | succ j =>
      rw [add_ofNat_succ]
      exact before j (Nat.lt_of_succ_lt_succ hj)

/-- There is one first free value at most. -/
theorem FirstAt.unique {i j : Nat} (h : pool.FirstAt start i) (h' : pool.FirstAt start j) :
    i = j := by
  rcases Nat.lt_trichotomy i j with lt | eq | lt
  · exact absurd ((h'.taken i lt).symm.trans h.free) Bool.false_ne_true
  · exact eq
  · exact absurd ((h.taken j lt).symm.trans h'.free) Bool.false_ne_true

/-- A bounded search finds the first free value, unless that lies beyond the bound. -/
theorem firstFree_eq_some :
    pool.firstFree n start = some id ↔
      ∃ k < n, pool.FirstAt start k ∧ id = start + UInt32.ofNat k := by
  induction n generalizing start with
  | zero => simp [firstFree]
  | succ n ih =>
    rw [firstFree]
    by_cases free : pool.isFree start = true
    · have first : pool.FirstAt start 0 := ⟨by simpa using free, fun j hj => absurd hj (by omega)⟩
      rw [if_pos free, Option.some.injEq]
      constructor
      · rintro rfl
        exact ⟨0, by omega, first, by simp⟩
      · rintro ⟨k, -, h, rfl⟩
        rw [h.unique first]
        simp
    · rw [if_neg free, ih]
      rw [Bool.not_eq_true] at free
      constructor
      · rintro ⟨k, lt, h, rfl⟩
        exact ⟨k + 1, by omega, (FirstAt.succ_iff free).2 h, (add_ofNat_succ start k).symm⟩
      · rintro ⟨k, lt, h, rfl⟩
        cases k with
        | zero =>
          have first : pool.isFree start = true := by simpa using h.free
          exact absurd (free.symm.trans first) Bool.false_ne_true
        | succ k => exact ⟨k, by omega, (FirstAt.succ_iff free).1 h, add_ofNat_succ start k⟩

/-- A search comes to its end at the first free value, which it puts in use. -/
theorem search_iff :
    pool.Search looks id after ↔
      ∃ k, pool.FirstAt pool.next k ∧ looks = k + 1 ∧ id = pool.candidate k ∧
        after = { next := id + 1, live := id :: pool.live } := by
  constructor
  · intro h
    induction h with
    | @hit pool free =>
      exact ⟨0, ⟨by simpa using free, fun j hj => absurd hj (by omega)⟩, rfl,
        by simp [candidate], rfl⟩
    | @skip pool after looks id taken rest ih =>
      obtain ⟨k, first, rfl, rfl, rfl⟩ := ih
      exact ⟨k + 1, (FirstAt.succ_iff taken).2 ⟨first.free, first.taken⟩, rfl,
        (add_ofNat_succ pool.next k).symm, rfl⟩
  · rintro ⟨k, first, rfl, rfl, rfl⟩
    induction k generalizing pool with
    | zero =>
      have free : pool.isFree pool.next = true := by simpa using first.free
      simpa [candidate] using Search.hit free
    | succ k ih =>
      have taken : pool.isFree pool.next = false := by simpa using first.taken 0 (by omega)
      have later := (FirstAt.succ_iff taken).1 first
      have passed : FirstAt { pool with next := pool.next + 1 } (pool.next + 1) k :=
        ⟨later.free, later.taken⟩
      have rest := ih passed
      rw [candidate, ← add_ofNat_succ] at rest
      exact .skip taken rest

/-- What a pool answers is what a search comes to that looks at no more values than there are ids
in use and two more. -/
theorem next?_eq_some :
    pool.next? = some (id, after) ↔ ∃ looks ≤ pool.liveCount + 2, pool.Search looks id after := by
  rw [next?, Option.map_eq_some_iff]
  constructor
  · rintro ⟨x, found, he⟩
    cases he
    obtain ⟨k, lt, first, rfl⟩ := firstFree_eq_some.1 found
    exact ⟨k + 1, lt, search_iff.2 ⟨k, first, rfl, rfl, rfl⟩⟩
  · rintro ⟨looks, le, search⟩
    obtain ⟨k, first, rfl, rfl, rfl⟩ := search_iff.1 search
    exact ⟨_, firstFree_eq_some.2 ⟨k, le, first, rfl⟩, rfl⟩

/-! ## How far a search goes -/

theorem candidate_inj {i j : Nat} (hi : i < 2 ^ 32) (hj : j < 2 ^ 32)
    (h : pool.candidate i = pool.candidate j) : i = j := by
  have h := congrArg UInt32.toNat (UInt32.add_right_inj pool.next |>.1 h)
  rwa [UInt32.toNat_ofNat_of_lt' hi, UInt32.toNat_ofNat_of_lt' hj] at h

/-- Ids that are all different are not more than there are. -/
theorem length_le_of_nodup {ids : List UInt32} (h : ids.Nodup) : ids.length ≤ 2 ^ 32 := by
  have numbers : (ids.map UInt32.toNat).Nodup := h.map fun _ _ => UInt32.toNat_inj.1
  have below : ids.map UInt32.toNat ⊆ List.range (2 ^ 32) := by
    intro x hx
    obtain ⟨id, -, rfl⟩ := List.mem_map.1 hx
    exact List.mem_range.2 id.toNat_lt
  simpa using (numbers.subperm below).length_le

/-- As long as there is a free id, there is one among as many values in a row as there are ids in
use and two more: all these are different, and no more of them can be taken than there are ids in
use and zero. -/
theorem exists_free_candidate (sound : pool.Sound) (free : ∃ x, pool.isFree x = true) :
    ∃ k < pool.liveCount + 2, pool.isFree (pool.candidate k) = true := by
  obtain ⟨x, hx⟩ := free
  rw [isFree_iff] at hx
  have room : pool.liveCount + 2 ≤ 2 ^ 32 := by
    have nodup : (x :: 0 :: pool.live).Nodup := by simp [hx.1, hx.2, sound.zero, sound.nodup]
    exact length_le_of_nodup nodup
  by_contra none
  have taken : (List.range (pool.liveCount + 2)).map pool.candidate ⊆ 0 :: pool.live := by
    intro id hid
    obtain ⟨k, hk, rfl⟩ := List.mem_map.1 hid
    have hn : ¬ pool.isFree (pool.candidate k) = true :=
      fun h => none ⟨k, List.mem_range.1 hk, h⟩
    rw [isFree_iff, not_and, Decidable.not_not] at hn
    exact List.mem_cons.2 (Decidable.or_iff_not_imp_left.2 hn)
  have nodup : ((List.range (pool.liveCount + 2)).map pool.candidate).Nodup := by
    refine List.Nodup.map_on ?_ List.nodup_range
    intro i hi j hj h
    rw [List.mem_range] at hi hj
    exact candidate_inj (by omega) (by omega) h
  have le := (nodup.subperm taken).length_le
  rw [List.length_map, List.length_range, List.length_cons, liveCount] at le
  omega

/-- A search that comes to a free value comes to a first one. -/
theorem exists_firstAt (free : pool.isFree (start + UInt32.ofNat n) = true) :
    ∃ k ≤ n, pool.FirstAt start k := by
  have exists_free : ∃ k, pool.isFree (start + UInt32.ofNat k) = true := ⟨n, free⟩
  refine ⟨Nat.find exists_free, Nat.find_min' exists_free free, Nat.find_spec exists_free, ?_⟩
  intro j hj
  rw [← Bool.not_eq_true]
  exact Nat.find_min exists_free hj

/-! ## Pools that can be come to -/

/-- A pool that can be come to: it starts with no id in use and its counter anywhere, and serves
calls. -/
inductive Reachable : IdPool → Prop
  | start (n : UInt32) : Reachable (startingAt n)
  | serve {pool after : IdPool} {call : PoolCall} {self : RequestId} {answer : Answer}
      (h : Reachable pool) (served : call.serve? pool self = some (after, answer)) : Reachable after

theorem Reachable.sound (h : pool.Reachable) : pool.Sound := by
  induction h with
  | start n => exact ⟨.nil, List.not_mem_nil⟩
  | serve _ served ih => exact (ih.serve? served).1

/-- Every sound pool can be come to: its ids are put in use one after the other. -/
theorem Sound.reachable (h : pool.Sound) : pool.Reachable := by
  obtain ⟨next, live⟩ := pool
  induction live with
  | nil => exact .start next
  | cons id live ih =>
    have nodup := List.nodup_cons.1 h.nodup
    have zero := not_or.1 (mt List.mem_cons.2 h.zero)
    have free : (⟨next, live⟩ : IdPool).isFree id = true := isFree_iff.2 ⟨Ne.symm zero.1, nodup.1⟩
    have served : (PoolCall.reserve (.given ⟨id⟩)).serve? ⟨next, live⟩ ⟨0⟩ =
        some (⟨next, id :: live⟩, .flag true) := by
      simp [PoolCall.serve?, RequestRef.resolve, reserve?, free]
    exact .serve (ih ⟨nodup.2, zero.2⟩) served

/-! ## The first free id -/

/-- What comes of asking a pool for an id: the first free value, after `k` others, is put in use. -/
structure Finds (pool : IdPool) (k : Nat) (after : IdPool) : Prop where
  /-- The search comes to its end, and there is no other end that it could come to. -/
  ends : ∀ looks id other, pool.Search looks id other ↔
    looks = k + 1 ∧ id = pool.candidate k ∧ other = after
  answers : pool.next? = some (pool.candidate k, after)
  nonzero : pool.candidate k ≠ 0
  unused : pool.candidate k ∉ pool.live
  /-- All values before it are zero or in use. -/
  passed : ∀ j < k, pool.candidate j = 0 ∨ pool.candidate j ∈ pool.live
  /-- It is put in use, and nothing else is. -/
  live : ∀ x, x ∈ after.live ↔ x = pool.candidate k ∨ x ∈ pool.live
  count : after.liveCount = pool.liveCount + 1
  /-- The counter is left just past it. -/
  next : after.next = pool.candidate k + 1
  bound : k + 1 ≤ pool.liveCount + 2

/-- For every pool that can be come to, wherever its counter stands and whatever is in use: as long
as there is a free id, the search for one comes to its end, at the first free value from the counter
on, and looks at no more values than there are ids in use and two more. -/
theorem first_free_found (reachable : pool.Reachable) (free : ∃ x, x ≠ 0 ∧ x ∉ pool.live) :
    ∃ k after, pool.Finds k after := by
  obtain ⟨n, lt, found⟩ := exists_free_candidate reachable.sound
    (free.imp fun _ hx => isFree_iff.2 hx)
  obtain ⟨k, le, first⟩ := exists_firstAt found
  obtain ⟨after, hafter⟩ : ∃ after : IdPool,
    after = { next := pool.candidate k + 1, live := pool.candidate k :: pool.live } := ⟨_, rfl⟩
  have search : pool.Search (k + 1) (pool.candidate k) after :=
    search_iff.2 ⟨k, first, rfl, rfl, hafter⟩
  obtain ⟨nonzero, unused⟩ := isFree_iff.1 first.free
  refine ⟨k, after, ?_, next?_eq_some.2 ⟨k + 1, by omega, search⟩, nonzero, unused, ?_, ?_,
    hafter ▸ rfl, hafter ▸ rfl, by omega⟩
  · intro looks id other
    constructor
    · intro h
      obtain ⟨i, first', rfl, rfl, rfl⟩ := search_iff.1 h
      obtain rfl := first'.unique first
      exact ⟨rfl, rfl, hafter.symm⟩
    · rintro ⟨rfl, rfl, rfl⟩
      exact search
  · intro j hj
    have taken := first.taken j hj
    rw [← Bool.not_eq_true, isFree_iff, not_and, Decidable.not_not] at taken
    exact Decidable.or_iff_not_imp_left.2 taken
  · intro x
    rw [hafter, List.mem_cons]

/-- The counter stands at the largest value, which is in use, as is the smallest that is issued.
The search goes past both and past zero, which is as far as it may have to go. -/
theorem first_free_found_past_wrap :
    ∃ k after, IdPool.Finds ⟨4294967295, [1, 4294967295]⟩ k after ∧
      k + 1 = IdPool.liveCount ⟨4294967295, [1, 4294967295]⟩ + 2 ∧ after.next = 3 := by
  have sound : IdPool.Sound ⟨4294967295, [1, 4294967295]⟩ := ⟨by decide, by decide⟩
  obtain ⟨k, after, finds⟩ := first_free_found sound.reachable ⟨2, by decide, by decide⟩
  have answer : IdPool.next? ⟨4294967295, [1, 4294967295]⟩ =
      some (2, ⟨3, [2, 1, 4294967295]⟩) := rfl
  have found := Option.some.inj (finds.answers.symm.trans answer)
  have next : IdPool.candidate ⟨4294967295, [1, 4294967295]⟩ k =
      IdPool.candidate ⟨4294967295, [1, 4294967295]⟩ 3 := congrArg Prod.fst found
  have bound := finds.bound
  have three := candidate_inj (by simp [liveCount] at bound; omega) (by omega) next
  exact ⟨k, after, finds, by rw [three]; rfl, congrArg (·.2.next) found⟩

end FileRelay.IdPool
