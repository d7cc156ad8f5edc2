/-!
# Decimal numerals

Natural numbers written in base ten without leading zeros, and the value of a run
of ASCII digits, leading zeros allowed.  Reading what was written gives the number
back (`value_render`).
-/

namespace FileRelay.Decimal

/-- The ten ASCII digits; letters and digits of other scripts do not count. -/
def isDigit (c : Char) : Bool := '0' ≤ c && c ≤ '9'

/-- The digit for `n < 10`. -/
def digit (n : Nat) : Char := Char.ofNat (48 + n)

/-- What a digit stands for. -/
def weight (c : Char) : Nat := c.toNat - 48

/-- The numeral of `n`: its shortest run of digits. -/
def render (n : Nat) : List Char :=
  if n < 10 then [digit n] else render (n / 10) ++ [digit (n % 10)]
termination_by n
decreasing_by omega

/-- The number that a run of digits stands for. -/
def value (digits : List Char) : Nat := digits.foldl (fun n c => 10 * n + weight c) 0

/-- The numeral as text. -/
def text (n : Nat) : String := String.ofList (render n)

theorem weight_digit {n : Nat} (h : n < 10) : weight (digit n) = n := by
  have : ∀ m : Fin 10, weight (digit m) = m := by decide
  exact this ⟨n, h⟩

theorem isDigit_digit {n : Nat} (h : n < 10) : isDigit (digit n) = true := by
  have : ∀ m : Fin 10, isDigit (digit m) = true := by decide
  exact this ⟨n, h⟩

theorem value_append_singleton (ds : List Char) (c : Char) :
    value (ds ++ [c]) = 10 * value ds + weight c := by
  simp [value, List.foldl_append]

/-- Reading a numeral gives the number back. -/
theorem value_render (n : Nat) : value (render n) = n := by
  induction n using Nat.strongRecOn with
  | ind n ih =>
    rw [render]
    split
    · next h => simp [value, weight_digit h]
    · next h =>
      rw [value_append_singleton, ih (n / 10) (by omega), weight_digit (by omega)]
      omega

/-- A numeral holds digits only. -/
theorem isDigit_of_mem_render {n : Nat} {c : Char} (h : c ∈ render n) : isDigit c = true := by
  induction n using Nat.strongRecOn generalizing c with
  | ind n ih =>
    rw [render] at h
    split at h
    · next hn => simp only [List.mem_singleton] at h; exact h ▸ isDigit_digit hn
    · next hn =>
      rcases List.mem_append.1 h with h | h
      · exact ih (n / 10) (by omega) h
      · simp only [List.mem_singleton] at h; exact h ▸ isDigit_digit (by omega)

/-- A numeral is never empty. -/
theorem render_ne_nil (n : Nat) : render n ≠ [] := by
  rw [render]
  split <;> simp

end FileRelay.Decimal
