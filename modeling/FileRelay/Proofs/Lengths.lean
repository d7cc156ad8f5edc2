import FileRelay.TimeSpan

/-!
# Spans are ordered by their exact lengths

Spans of three units are compared by a pair of words, whole seconds and the nanoseconds
beside them, and minutes are turned into seconds by a product that stops at the greatest
word.  In total such a pair is a number of nanoseconds, and the pairs are in the order of
these numbers (`Duration.cmp_eq`).  So the order of spans is that of their lengths, and a
length is the exact one up to a limit, which only minutes can exceed
(`TimeSpan.length_eq`).  All that is expected of the order follows from these two facts
(`TimeSpan.order_coherent`).
-/

namespace FileRelay

namespace Duration

variable {a b : Duration}

/-! ## Seconds and nanoseconds together -/

@[simp] theorem totalNanos_ofSeconds (n : UInt64) :
    (ofSeconds n).totalNanos = n.toNat * 1000000000 := by
  simp [totalNanos, ofSeconds]

/-- A thousand milliseconds are as many nanoseconds as the second they are turned into. -/
@[simp] theorem totalNanos_ofMillis (n : UInt64) : (ofMillis n).totalNanos = n.toNat * 1000000 := by
  have seconds : (ofMillis n).seconds.toNat = n.toNat / 1000 := UInt64.toNat_div n 1000
  have nanos : (ofMillis n).nanos.toNat = n.toNat % 1000 * 1000000 := toNat_nanosOfMillis n
  rw [totalNanos, seconds, nanos]
  omega

theorem millis_eq (d : Duration) : d.millis = d.totalNanos / 1000000 := by
  rw [millis, totalNanos]
  omega

/-- A length is known by its nanoseconds in total. -/
theorem totalNanos_inj : a.totalNanos = b.totalNanos ↔ a = b := by
  refine ⟨fun total => ?_, fun same => same ▸ rfl⟩
  have ha := a.nanos_lt
  have hb := b.nanos_lt
  rw [totalNanos, totalNanos] at total
  have seconds : a.seconds = b.seconds := UInt64.toNat_inj.1 (by omega)
  have nanos : a.nanos = b.nanos := UInt32.toNat_inj.1 (by omega)
  cases a
  cases b
  cases seconds
  cases nanos
  rfl

/-- Comparing the seconds first and then the nanoseconds is comparing the totals, as the
nanoseconds beside the seconds never make up a second. -/
theorem cmp_eq (a b : Duration) : a.cmp b = compare a.totalNanos b.totalNanos := by
  have ha := a.nanos_lt
  have hb := b.nanos_lt
  rw [cmp, totalNanos, totalNanos]
  cases seconds : compare a.seconds b.seconds with
  | lt =>
    have less := UInt64.lt_iff_toNat_lt.1 (Std.compare_eq_lt.1 seconds)
    exact (Nat.compare_eq_lt.2 (by omega)).symm
  | gt =>
    have more := UInt64.lt_iff_toNat_lt.1 (Std.compare_eq_gt.1 seconds)
    exact (Nat.compare_eq_gt.2 (by omega)).symm
  | eq =>
    rw [Std.LawfulEqOrd.eq_of_compare seconds, Ordering.eq_then]
    cases nanos : compare a.nanos b.nanos with
    | lt =>
      have less := UInt32.lt_iff_toNat_lt.1 (Std.compare_eq_lt.1 nanos)
      exact (Nat.compare_eq_lt.2 (by omega)).symm
    | gt =>
      have more := UInt32.lt_iff_toNat_lt.1 (Std.compare_eq_gt.1 nanos)
      exact (Nat.compare_eq_gt.2 (by omega)).symm
    | eq =>
      rw [Std.LawfulEqOrd.eq_of_compare nanos]
      exact (Nat.compare_eq_eq.2 rfl).symm

/-- The product of two words is exact, or stops at the greatest word. -/
theorem toNat_cappedMul (m n : UInt64) :
    (cappedMul m n).toNat = min (m.toNat * n.toNat) (UInt64.size - 1) := by
  unfold cappedMul
  by_cases fits : m.toNat * n.toNat < UInt64.size
  · rw [if_pos fits, UInt64.toNat_mul, Nat.mod_eq_of_lt fits]
    omega
  · rw [if_neg fits, UInt64.toNat_ofNat_of_lt' (by decide)]
    omega

end Duration

/-- The milliseconds in one of a unit. -/
def TimeUnit.millis : TimeUnit → Nat
  | .milliseconds => 1
  | .seconds => 1000
  | .minutes => 60000

namespace TimeSpan

variable {span a b c : TimeSpan}

/-! ## Exact lengths -/

/-- The length of a span in milliseconds, however long it is. -/
def exactMillis (span : TimeSpan) : Nat := span.amount.toNat * span.unit.millis

/-- The greatest length of whole seconds, in milliseconds. -/
def longestMillis : Nat := (UInt64.size - 1) * 1000

/-- Whether a span is not of more minutes than a word holds the seconds of. -/
def Fits (span : TimeSpan) : Prop :=
  span.unit = .minutes → span.amount.toNat ≤ (UInt64.size - 1) / 60

theorem exactMillis_le (fits : span.Fits) : span.exactMillis ≤ longestMillis := by
  have bound := span.amount.toNat_lt_size
  unfold exactMillis longestMillis
  cases unit : span.unit with
  | milliseconds | seconds =>
    simp only [TimeUnit.millis]
    omega
  | minutes =>
    have few := fits unit
    simp only [TimeUnit.millis]
    omega

/-- The length of a span is the exact one, up to the limit. -/
theorem length_eq (span : TimeSpan) : span.length = min span.exactMillis longestMillis := by
  have bound := span.amount.toNat_lt_size
  unfold length exactMillis longestMillis longestSeconds
  cases span.unit <;> simp only [TimeUnit.millis] <;> omega

/-- The pair of words that stands for a length is as long as that. -/
theorem totalNanos_duration (span : TimeSpan) :
    span.duration.totalNanos = span.length * 1000000 := by
  unfold duration length
  cases span.unit with
  | milliseconds => exact Duration.totalNanos_ofMillis span.amount
  | seconds =>
    simp only [Duration.totalNanos_ofSeconds]
    omega
  | minutes =>
    have product : (Duration.cappedMul span.amount 60).toNat =
        min (span.amount.toNat * 60) longestSeconds := Duration.toNat_cappedMul span.amount 60
    simp only [Duration.totalNanos_ofSeconds, product]
    omega

/-- The milliseconds that the machine counts in lose nothing of a length. -/
theorem millis_duration (span : TimeSpan) : span.duration.millis = span.length := by
  rw [Duration.millis_eq, totalNanos_duration, Nat.mul_div_cancel _ (by decide)]

theorem length_of_fits (fits : span.Fits) : span.length = span.exactMillis := by
  rw [length_eq, Nat.min_eq_left (exactMillis_le fits)]

/-! ## The order -/

/-- Nothing less than a millisecond plays a part. -/
theorem cmp_eq (a b : TimeSpan) : a.cmp b = compare a.length b.length := by
  rw [cmp, Duration.cmp_eq, totalNanos_duration, totalNanos_duration]
  rcases Nat.lt_trichotomy a.length b.length with less | same | more
  · rw [Nat.compare_eq_lt.2 less, Nat.compare_eq_lt.2 (by omega)]
  · rw [same, Nat.compare_eq_eq.2 rfl, Nat.compare_eq_eq.2 rfl]
  · rw [Nat.compare_eq_gt.2 more, Nat.compare_eq_gt.2 (by omega)]

theorem isLE_cmp : (a.cmp b).isLE ↔ a.length ≤ b.length := by
  rw [cmp_eq, Nat.isLE_compare]

theorem sameLength_iff : a.sameLength b ↔ a.length = b.length := by
  rw [sameLength, beq_iff_eq, ← Duration.totalNanos_inj, totalNanos_duration, totalNanos_duration,
    Nat.mul_left_inj (by decide)]

theorem length_zero : zero.length = 0 := by decide

/-- A span of no length has no amount: no unit is worth nothing. -/
theorem length_eq_zero : span.length = 0 ↔ span.amount = 0 := by
  have amount : span.amount = 0 ↔ span.amount.toNat = 0 := UInt64.toNat_inj.symm
  rw [length_eq, amount, exactMillis, longestMillis]
  have limit : UInt64.size = 18446744073709551616 := rfl
  cases span.unit <;> simp only [TimeUnit.millis] <;> omega

/-- What is expected of the order of spans. -/
structure Coherent (a b c : TimeSpan) : Prop where
  refl : a.cmp a = .eq
  swap : b.cmp a = (a.cmp b).swap
  total : (a.cmp b).isLE ∨ (b.cmp a).isLE
  trans : (a.cmp b).isLE → (b.cmp c).isLE → (a.cmp c).isLE
  /-- What is neither less nor greater is the same value, and the other way round. -/
  eq_iff : a.cmp b = .eq ↔ a.sameLength b
  /-- Whatever takes in two spans that are the same value cannot tell them apart. -/
  hash : a.sameLength b → ∀ (σ : Type) (hasher : Hasher σ) (state : σ),
    a.hashInto hasher state = b.hashInto hasher state
  /-- Nothing but an amount of zero is the same value as the span of no length. -/
  isZero_iff : a.isZero ↔ a.sameLength zero
  /-- What is no longer is no greater, even where lengths are cut off. -/
  mono : a.exactMillis ≤ b.exactMillis → (a.cmp b).isLE
  /-- Where they are not, less, equal and greater are what the exact lengths say. -/
  exact_order : a.Fits → b.Fits → a.cmp b = compare a.exactMillis b.exactMillis

/-- The order of spans is coherent, for all units and amounts. -/
theorem order_coherent (a b c : TimeSpan) : Coherent a b c where
  refl := by rw [cmp_eq, Nat.compare_eq_eq]
  swap := by rw [cmp_eq, cmp_eq, Nat.compare_swap]
  total := by
    rw [isLE_cmp, isLE_cmp]
    exact Nat.le_total a.length b.length
  trans := by
    rw [isLE_cmp, isLE_cmp, isLE_cmp]
    exact Nat.le_trans
  eq_iff := by rw [cmp_eq, Nat.compare_eq_eq, sameLength_iff]
  hash := by
    intro same σ hasher state
    have length : a.duration = b.duration := beq_iff_eq.1 same
    rw [hashInto, hashInto, length]
  isZero_iff := by rw [sameLength_iff, length_zero, length_eq_zero, isZero, beq_iff_eq]
  mono := by
    intro shorter
    rw [isLE_cmp, length_eq, length_eq]
    omega
  exact_order := by
    intro fitsA fitsB
    rw [cmp_eq, length_of_fits fitsA, length_of_fits fitsB]

end TimeSpan

end FileRelay
