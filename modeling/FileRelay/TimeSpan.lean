import FileRelay.Duration

/-!
# Time spans

A span of time as it is written in a configuration: an amount and a unit.  Spans
are compared by their length, so a thousand milliseconds equal one second although
the two are written differently.
-/

namespace FileRelay

/-- The units a span may be given in. -/
inductive TimeUnit where
  | milliseconds
  | seconds
  | minutes
deriving DecidableEq, Repr, Inhabited

/-- An amount of some unit. -/
structure TimeSpan where
  unit : TimeUnit
  amount : UInt64
deriving DecidableEq, Repr, Inhabited

namespace TimeSpan

/-- A span of `n` milliseconds. -/
def ofMillis (n : UInt64) : TimeSpan := ⟨.milliseconds, n⟩

/-- A span of `n` seconds. -/
def ofSeconds (n : UInt64) : TimeSpan := ⟨.seconds, n⟩

/-- The span of no length, in seconds. -/
def zero : TimeSpan := ofSeconds 0

/-- The length of a span.  Minutes too many for a word to hold their seconds have the
greatest length of whole seconds. -/
def duration (span : TimeSpan) : Duration :=
  match span.unit with
  | .milliseconds => .ofMillis span.amount
  | .seconds => .ofSeconds span.amount
  | .minutes => .ofSeconds (Duration.cappedMul span.amount 60)

/-- The longest time that is told apart from a longer one, in seconds. -/
def longestSeconds : Nat := UInt64.size - 1

/-- The length in milliseconds, which is a whole number of them.  Minutes are turned into
at most `longestSeconds` seconds; the two other units cannot exceed that. -/
def length (span : TimeSpan) : Nat :=
  match span.unit with
  | .milliseconds => span.amount.toNat
  | .seconds => span.amount.toNat * 1000
  | .minutes => min (span.amount.toNat * 60) longestSeconds * 1000

/-- The whole seconds of the length. -/
def wholeSeconds (span : TimeSpan) : Nat := span.duration.seconds.toNat

/-- The milliseconds left over beside the whole seconds. -/
def leftoverMillis (span : TimeSpan) : Nat := span.duration.nanos.toNat / 1000000

/-- Whether the amount is zero, in whatever unit. -/
def isZero (span : TimeSpan) : Bool := span.amount == 0

/-- The order of two spans is the order of their lengths. -/
def cmp (a b : TimeSpan) : Ordering := a.duration.cmp b.duration

/-- Two spans count as one value if they are equally long. -/
def sameLength (a b : TimeSpan) : Bool := a.duration == b.duration

/-- Has a hasher take in a span, of which it is given the length only. -/
def hashInto (hasher : Hasher σ) (state : σ) (span : TimeSpan) : σ :=
  span.duration.hashInto hasher state

/-- The spans in ascending order; equally long ones keep their places. -/
def sorted (spans : List TimeSpan) : List TimeSpan :=
  spans.mergeSort fun a b => a.cmp b != .gt

/-- How many different values there are among the spans. -/
def countDistinct (spans : List TimeSpan) : Nat := (spans.map duration).eraseDups.length

end TimeSpan

end FileRelay
