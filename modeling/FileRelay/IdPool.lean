import FileRelay.Identifier

/-!
# The id space of a mount

Requests and open files draw their ids from one pool.  The pool's counter only
moves forward and wraps around after the largest 32-bit number; an id that was
handed out stays live until it is released, and the counter passes over live ids
and over zero, which is never issued.
-/

namespace FileRelay

/-- The number the counter will try next, and the ids in use. -/
structure IdPool where
  next : UInt32
  live : List UInt32
deriving Repr, Inhabited

namespace IdPool

/-- A pool with no live ids, whose counter stands at `n`. -/
def startingAt (n : UInt32) : IdPool := ⟨n, []⟩

/-- Whether `id` is in use. -/
def isLive (pool : IdPool) (id : UInt32) : Bool := pool.live.contains id

/-- Whether `id` may be handed out now: it is neither zero nor in use. -/
def isFree (pool : IdPool) (id : UInt32) : Bool := id != 0 && !pool.isLive id

/-- The first free id among the `n` candidates that start at `candidate` and go
upward, wrapping after the largest. -/
def firstFree (pool : IdPool) : Nat → UInt32 → Option UInt32
  | 0, _ => none
  | n + 1, candidate =>
    if pool.isFree candidate then some candidate else pool.firstFree n (candidate + 1)

/-- Hands out the first free id from the counter on, and leaves the counter just
past it.  Of any `live.length + 2` candidates in a row, at most `live.length` are
in use and at most one is zero, so looking at that many misses no free id; there
is no answer exactly if every id but zero is in use. -/
def next? (pool : IdPool) : Option (UInt32 × IdPool) :=
  (pool.firstFree (pool.live.length + 2) pool.next).map fun id =>
    (id, { next := id + 1, live := id :: pool.live })

/-- Puts `id` in use again, without moving the counter; refused for zero and for
an id in use. -/
def reserve? (pool : IdPool) (id : UInt32) : Option IdPool :=
  if pool.isFree id then some { pool with live := id :: pool.live } else none

/-- Frees `id`; an id not in use changes nothing. -/
def release (pool : IdPool) (id : UInt32) : IdPool :=
  { pool with live := pool.live.filter (· != id) }

/-- Frees several ids. -/
def releaseAll (pool : IdPool) (ids : List UInt32) : IdPool :=
  ids.foldl release pool

/-- How many ids are in use. -/
def liveCount (pool : IdPool) : Nat := pool.live.length

/-- Moves the counter, leaving the live ids as they are. -/
def rewind (pool : IdPool) (n : UInt32) : IdPool := { pool with next := n }

/-- Hands out up to `n` ids one after the other. -/
def nextMany (pool : IdPool) : Nat → List UInt32 × IdPool
  | 0 => ([], pool)
  | n + 1 =>
    match pool.next? with
    | none => ([], pool)
    | some (id, pool) =>
      let (ids, pool) := pool.nextMany n
      (id :: ids, pool)

theorem isFree_iff {pool : IdPool} {id : UInt32} :
    pool.isFree id = true ↔ id ≠ 0 ∧ id ∉ pool.live := by
  simp [isFree, isLive]

/-- What the search finds is free. -/
theorem isFree_of_firstFree {pool : IdPool} {n : Nat} {start id : UInt32}
    (h : pool.firstFree n start = some id) : pool.isFree id = true := by
  induction n generalizing start with
  | zero => cases h
  | succ n ih =>
    rw [firstFree] at h
    by_cases hf : pool.isFree start = true
    · rw [if_pos hf] at h
      cases h
      exact hf
    · rw [if_neg hf] at h
      exact ih h

@[simp] theorem mem_live_release {pool : IdPool} {id x : UInt32} :
    x ∈ (pool.release id).live ↔ x ∈ pool.live ∧ x ≠ id := by
  simp [release]

@[simp] theorem next_release (pool : IdPool) (id : UInt32) :
    (pool.release id).next = pool.next := rfl

end IdPool

end FileRelay
