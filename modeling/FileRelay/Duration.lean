/-!
# Lengths of time

A length of time is kept as whole seconds, in a 64-bit word, and the nanoseconds beside
them, fewer than a second holds.  Lengths are compared by their seconds first.
-/

namespace FileRelay

/-- A length of time. -/
structure Duration where
  seconds : UInt64
  nanos : UInt32
  nanos_lt : nanos.toNat < 1000000000 := by decide
deriving DecidableEq, Repr

instance : Inhabited Duration := ⟨{ seconds := 0, nanos := 0 }⟩

/-- What takes in words one after the other and keeps a digest of them. -/
structure Hasher (σ : Type) where
  word64 : σ → UInt64 → σ
  word32 : σ → UInt32 → σ

namespace Duration

/-- The product of two words, or the greatest word there is if the product exceeds it. -/
def cappedMul (a b : UInt64) : UInt64 :=
  if a.toNat * b.toNat < UInt64.size then a * b else UInt64.ofNat (UInt64.size - 1)

/-- The nanoseconds in what `n` milliseconds hold beside whole seconds. -/
def nanosOfMillis (n : UInt64) : UInt32 := (n % 1000).toUInt32 * 1000000

/-- Less than a thousand milliseconds make so few nanoseconds that nothing is lost. -/
theorem toNat_nanosOfMillis (n : UInt64) :
    (nanosOfMillis n).toNat = n.toNat % 1000 * 1000000 := by
  have rest : (n % 1000).toNat = n.toNat % 1000 := UInt64.toNat_mod n 1000
  have factor : (1000000 : UInt32).toNat = 1000000 := rfl
  rw [nanosOfMillis, UInt32.toNat_mul, UInt64.toNat_toUInt32, rest, factor]
  omega

/-- A length of `n` seconds. -/
def ofSeconds (n : UInt64) : Duration := { seconds := n, nanos := 0 }

/-- A length of `n` milliseconds, each thousand of which make a second. -/
def ofMillis (n : UInt64) : Duration where
  seconds := n / 1000
  nanos := nanosOfMillis n
  nanos_lt := by
    rw [toNat_nanosOfMillis]
    omega

/-- The nanoseconds that a length has in all. -/
def totalNanos (d : Duration) : Nat := d.seconds.toNat * 1000000000 + d.nanos.toNat

/-- The milliseconds of a length, without what is left over. -/
def millis (d : Duration) : Nat := d.seconds.toNat * 1000 + d.nanos.toNat / 1000000

/-- The order of two lengths is that of their seconds, and if these are equal that of
their nanoseconds. -/
def cmp (a b : Duration) : Ordering :=
  (compare a.seconds b.seconds).then (compare a.nanos b.nanos)

/-- Has a hasher take in a length. -/
def hashInto (hasher : Hasher σ) (state : σ) (d : Duration) : σ :=
  hasher.word32 (hasher.word64 state d.seconds) d.nanos

end Duration

end FileRelay
