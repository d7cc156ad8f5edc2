import FileRelay.Identifier

/-!
# Deadlines and timers

Clock times are milliseconds since the start.  A request with a deadline has a timer
armed for it.  Timers expire in the order of their deadlines, and those of equal
deadline in the order in which they were armed.
-/

namespace FileRelay

/-- The longest time a request may be given, in milliseconds: all 64-bit seconds and
a fraction. -/
def longestTimeout : Nat := (UInt64.size - 1) * 1000 + 999

/-- The deadline of a request that is given `timeout` from `now` on, unless it lies
beyond what the clock can hold, which is all times before its `horizon`. -/
def deadline? (horizon now timeout : Nat) : Option Nat :=
  if now + timeout < horizon then some (now + timeout) else none

/-- A timer armed for a request. -/
structure Timer where
  request : RequestKey
  deadline : Nat
deriving DecidableEq, Repr, Inhabited

/-- The timers armed, in the order of arming. -/
structure Timers where
  armed : List Timer := []
deriving Repr, Inhabited

namespace Timers

/-- Stops the timer of a request. -/
def stop (timers : Timers) (request : RequestKey) : Timers :=
  ⟨timers.armed.filter (·.request ≠ request)⟩

/-- Arms a timer for a request as the latest, in place of any it has. -/
def arm (timers : Timers) (request : RequestKey) (deadline : Nat) : Timers :=
  ⟨(timers.stop request).armed ++ [⟨request, deadline⟩]⟩

/-- The earlier of two timers; of equal ones the first. -/
def earlier (a b : Timer) : Timer := if b.deadline < a.deadline then b else a

/-- The timer to expire next: of the earliest deadline, and of those the one armed
first. -/
def first? (timers : Timers) : Option Timer :=
  match timers.armed with
  | [] => none
  | t :: rest => some (rest.foldl earlier t)

/-- The timer to expire next, if its deadline is not past `limit`. -/
def due? (timers : Timers) (limit : Nat) : Option Timer :=
  timers.first?.filter (·.deadline ≤ limit)

@[simp] theorem mem_stop {timers : Timers} {request : RequestKey} {timer : Timer} :
    timer ∈ (timers.stop request).armed ↔ timer ∈ timers.armed ∧ timer.request ≠ request := by
  simp [stop]

theorem mem_arm {timers : Timers} {request : RequestKey} {deadline : Nat} {timer : Timer} :
    timer ∈ (timers.arm request deadline).armed ↔
      timer ∈ timers.armed ∧ timer.request ≠ request ∨ timer = ⟨request, deadline⟩ := by
  simp [arm]

end Timers

end FileRelay
