import FileRelay.Decimal
import FileRelay.Toml.Quoted
import FileRelay.Toml.Table

/-!
# TOML numbers, dates and times

Integers are signed 64-bit numbers, in decimal or, with a prefix and without a sign,
in base sixteen, eight or two.  Digits may be grouped by single underscores.  Floating
point numbers must not be too large.  Dates and times are checked to exist, leap
years included.
-/

namespace FileRelay.Toml

/-- Reads a digit of a kind and any more of them; an underscore must have a digit on
either side. -/
def digitsAfter (p : Char → Bool) : Nat → Reader (List Char)
  | 0 => Reader.fail
  | fuel + 1 => do
    match ← Reader.peek with
    | some '_' =>
      Reader.exactly ['_']
      let c ← Reader.one p
      return c :: (← digitsAfter p fuel)
    | some c =>
      if p c then
        Reader.exactly [c]
        return c :: (← digitsAfter p fuel)
      else return []
    | none => return []

/-- Reads one or more digits of a kind, perhaps grouped; the result is without the
underscores. -/
def digits (p : Char → Bool) : Reader (List Char) := do
  let fuel ← Reader.remaining
  let c ← Reader.one p
  return c :: (← digitsAfter p fuel)

/-- Reads a sign; without one the number is not negative. -/
def sign : Reader Bool := do
  match ← Reader.peek with
  | some '-' =>
    Reader.exactly ['-']
    return true
  | some '+' =>
    Reader.exactly ['+']
    return false
  | _ => return false

/-- Reads the digits of a decimal integer: a zero by itself, or digits that do not
begin with one. -/
def decimalDigits : Reader (List Char) := do
  match ← Reader.peek with
  | some '0' =>
    Reader.exactly ['0']
    return ['0']
  | _ => digits Decimal.isDigit

/-- The number that digits stand for in a base. -/
def valueInBase (base : Nat) (digits : List Char) : Nat :=
  digits.foldl (fun n c => base * n + hexWeight c) 0

/-- An integer that fits a signed 64-bit number. -/
def fitting (n : Int) : Reader Node :=
  if -(Nat.pow 2 63) ≤ n ∧ n < Nat.pow 2 63 then return .int n else Reader.fail

/-- Reads an integer. -/
def integer : Reader Node := fun cs =>
  let based (base : Nat) (p : Char → Bool) : Reader Node := do
    let ds ← digits p
    fitting (valueInBase base ds)
  match cs with
  | '0' :: 'x' :: rest => based 16 isHex rest
  | '0' :: 'o' :: rest => based 8 (fun c => '0' ≤ c && c ≤ '7') rest
  | '0' :: 'b' :: rest => based 2 (fun c => c = '0' || c = '1') rest
  | cs =>
    (do
      let negative ← sign
      let ds ← decimalDigits
      let n : Int := valueInBase 10 ds
      fitting (if negative then -n else n) : Reader Node) cs

/-- Reads an exponent. -/
def exponent : Reader Int := do
  let _ ← Reader.one fun c => c = 'e' || c = 'E'
  let negative ← sign
  let n : Int := valueInBase 10 (← digits Decimal.isDigit)
  return if negative then -n else n

/-- Whether `digits`, with the point `places` from their end and a power of ten given by
`exponent`, is too large for a double: it would be rounded to `2 ^ 1024` or more.
Numbers beyond `10 ^ 310` are so by the count of their digits alone. -/
def tooLarge (digits : List Char) (places : Nat) (exponent : Int) : Bool :=
  let significant := digits.dropWhile (· = '0')
  let scale := exponent - places
  if significant.isEmpty || significant.length + scale ≤ 300 then false
  else if 310 ≤ significant.length + scale then true
  else
    let limit := Nat.pow 2 1024 - Nat.pow 2 970
    let n := valueInBase 10 significant
    if 0 ≤ scale then limit ≤ n * Nat.pow 10 scale.toNat else limit * Nat.pow 10 (-scale).toNat ≤ n

/-- Reads a floating point number: an integer part with a fraction or an exponent or
both, or one of the special numbers. -/
def float : Reader Node := do
  let negative ← sign
  match ← Reader.peek with
  | some 'i' =>
    Reader.exactly ['i', 'n', 'f']
    return .float (if negative then "-inf" else "inf")
  | some 'n' =>
    Reader.exactly ['n', 'a', 'n']
    return .float "nan"
  | _ =>
    let whole ← decimalDigits
    let fraction ← match ← Reader.peek with
      | some '.' => do
        Reader.exactly ['.']
        digits Decimal.isDigit
      | some 'e' | some 'E' => pure []
      | _ => Reader.fail
    let power ← match ← Reader.peek with
      | some 'e' | some 'E' => exponent
      | _ => pure 0
    if !negative && tooLarge (whole ++ fraction) fraction.length power then Reader.fail
    else
      return .float (String.ofList
        ((if negative then ['-'] else []) ++ whole ++ ['.'] ++ fraction))

/-- Reads exactly `n` digits whose value lies between two bounds. -/
def fixedNumber (n low high : Nat) : Reader Nat := do
  let ds ← Reader.exactCount Decimal.isDigit n
  let v := Decimal.value ds
  if low ≤ v && v ≤ high then return v else Reader.fail

/-- The days of a month. -/
def daysOfMonth (year month : Nat) : Nat :=
  let leap := year % 4 = 0 ∧ (year % 100 ≠ 0 ∨ year % 400 = 0)
  match month with
  | 2 => if leap then 29 else 28
  | 4 | 6 | 9 | 11 => 30
  | _ => 31

/-- Reads a date. -/
def date : Reader Unit := do
  let year ← fixedNumber 4 0 9999
  Reader.exactly ['-']
  let month ← fixedNumber 2 1 12
  Reader.exactly ['-']
  let _ ← fixedNumber 2 1 (daysOfMonth year month)

/-- Reads hours and minutes. -/
def hourMinute : Reader Unit := do
  let _ ← fixedNumber 2 0 23
  Reader.exactly [':']
  let _ ← fixedNumber 2 0 59

/-- Reads a time of day, down to seconds or fractions of them. -/
def timeOfDay : Reader Unit := do
  hourMinute
  Reader.exactly [':']
  let _ ← fixedNumber 2 0 60
  match ← Reader.peek with
  | some '.' => do
    Reader.exactly ['.']
    let _ ← Reader.one Decimal.isDigit
    let _ ← Reader.takeWhile Decimal.isDigit
  | _ => return ()

/-- Reads how far a time is off from universal time, if that is given. -/
def offset : Reader Unit := do
  match ← Reader.peek with
  | some 'Z' => Reader.exactly ['Z']
  | some 'z' => Reader.exactly ['z']
  | some '+' => do
    Reader.exactly ['+']
    hourMinute
  | some '-' => do
    Reader.exactly ['-']
    hourMinute
  | _ => return ()

/-- Whether characters begin like a time of day: an hour and a colon. -/
def beginsTime : List Char → Bool
  | a :: b :: ':' :: _ => Decimal.isDigit a && Decimal.isDigit b
  | _ => false

/-- Reads a date, a time of day, or both. -/
def dateTime : Reader Unit := fun cs =>
  if beginsTime cs then timeOfDay cs
  else
    (do
      date
      let rest ← (fun cs => some (cs, cs) : Reader (List Char))
      match rest with
      | c :: after =>
        if (c = 'T' || c = 't' || c = ' ') && beginsTime after then
          Reader.exactly [c]
          timeOfDay
          offset
        else return ()
      | [] => return () : Reader Unit) cs

/-- Whether characters begin like a date or a time of day. -/
def beginsDateTime : List Char → Bool
  | a :: b :: c :: d :: '-' :: _ =>
    Decimal.isDigit a && Decimal.isDigit b && Decimal.isDigit c && Decimal.isDigit d
  | cs => beginsTime cs

/-- Reads a number, a date or a time. -/
def number : Reader Node := fun cs =>
  if beginsDateTime cs then
    match dateTime cs with
    | some ((), rest) => some (.time (String.ofList (cs.take (cs.length - rest.length))), rest)
    | none => none
  else
    match float cs with
    | some result => some result
    | none => integer cs

end FileRelay.Toml
