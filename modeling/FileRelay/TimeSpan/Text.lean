import FileRelay.Decimal
import FileRelay.TimeSpan

/-!
# The written form of a time span

A span is written as its amount in decimal followed by its unit in lower case:
`100ms`, `10s`, `2m`.  On reading, leading zeros are allowed and the unit may also
be in upper case, but not in mixed case; there is no sign, blank or fraction, and
the amount must be below `2 ^ 64`.
-/

namespace FileRelay

/-- How a unit is written. -/
def TimeUnit.chars : TimeUnit → List Char
  | .milliseconds => ['m', 's']
  | .seconds => ['s']
  | .minutes => ['m']

/-- Reads a unit, all in lower case or all in upper case. -/
def TimeUnit.ofChars? : List Char → Option TimeUnit
  | ['m', 's'] => some .milliseconds
  | ['M', 'S'] => some .milliseconds
  | ['s'] => some .seconds
  | ['S'] => some .seconds
  | ['m'] => some .minutes
  | ['M'] => some .minutes
  | _ => none

/-- How a unit is written, as text. -/
def TimeUnit.text (unit : TimeUnit) : String := String.ofList unit.chars

/-- Reads a unit. -/
def TimeUnit.ofText? (s : String) : Option TimeUnit := TimeUnit.ofChars? s.toList

namespace TimeSpan

/-- How a span is written. -/
def chars (span : TimeSpan) : List Char :=
  Decimal.render span.amount.toNat ++ span.unit.chars

/-- Reads an amount: at least one digit, and a value below `2 ^ 64`. -/
def amountOfDigits? (digits : List Char) : Option UInt64 :=
  if digits = [] then none
  else if Decimal.value digits < UInt64.size then some (UInt64.ofNat (Decimal.value digits))
  else none

/-- Reads a span: the digits in front are the amount, all that follows is the unit. -/
def ofChars? (cs : List Char) : Option TimeSpan := do
  let unit ← TimeUnit.ofChars? (cs.dropWhile Decimal.isDigit)
  let amount ← amountOfDigits? (cs.takeWhile Decimal.isDigit)
  return ⟨unit, amount⟩

/-- How a span is written, as text. -/
def text (span : TimeSpan) : String := String.ofList span.chars

/-- Reads a span. -/
def ofText? (s : String) : Option TimeSpan := ofChars? s.toList

end TimeSpan

end FileRelay
