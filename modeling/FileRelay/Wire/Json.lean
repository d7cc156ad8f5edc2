/-!
# JSON values

The values that messages and configurations are made of on the wire.  Numbers are
integers, or decimal fractions that no field takes.  The members of an object keep
the order in which they were given, although no reader looks at it.

A reader takes a value apart and has no answer if the value is not of its form.
Records are read by field name: members that the record does not know are passed over.
-/

namespace FileRelay

/-- A JSON value. -/
inductive Json where
  | null
  | flag (flag : Bool)
  | int (n : Int)
  /-- A number written with a fraction: `digits` with the last `places` of them behind
  the point. -/
  | fraction (digits : Int) (places : Nat)
  | text (s : String)
  | array (items : List Json)
  | object (members : List (String × Json))
deriving Inhabited

namespace Json

/-- An array of what is made of each item. -/
def ofList (encode : α → Json) (items : List α) : Json := .array (items.map encode)

/-- A natural number. -/
def ofNat (n : Nat) : Json := .int n

/-- Reads a truth value. -/
def flag? : Json → Option Bool
  | .flag b => some b
  | _ => none

/-- Reads a text. -/
def text? : Json → Option String
  | .text s => some s
  | _ => none

/-- Reads a natural number below `bound`. -/
def natBelow? (bound : Nat) : Json → Option Nat
  | .int (.ofNat n) => if n < bound then some n else none
  | _ => none

/-- Reads a 32-bit number. -/
def word32? (j : Json) : Option UInt32 := (j.natBelow? UInt32.size).map UInt32.ofNat

/-- Reads a 64-bit number. -/
def word64? (j : Json) : Option UInt64 := (j.natBelow? UInt64.size).map UInt64.ofNat

/-- Reads a byte. -/
def byte? (j : Json) : Option UInt8 := (j.natBelow? UInt8.size).map UInt8.ofNat

/-- Reads each item of a list. -/
def each? (read : α → Option β) : List α → Option (List β)
  | [] => some []
  | a :: rest => do
    let b ← read a
    let bs ← each? read rest
    return b :: bs

/-- Reads an array, item by item. -/
def array? (read : Json → Option α) : Json → Option (List α)
  | .array items => each? read items
  | _ => none

/-- Reads bytes: an array of numbers, or a text that stands for its UTF-8 form. -/
def bytes? : Json → Option (List UInt8)
  | .array items => each? byte? items
  | .text s => some s.toUTF8.data.toList
  | _ => none

/-- Bytes as they are written: an array of numbers. -/
def ofBytes (bytes : List UInt8) : Json := ofList (fun b => ofNat b.toNat) bytes

/-- Reads the name of a choice that carries nothing.  It may also be given as an object
with that one name, holding null. -/
def choice? : Json → Option String
  | .text s => some s
  | .object [(name, .null)] => some name
  | _ => none

/-- Reads the name of a choice that carries nothing, as a field of a tagged value.  There
the object with that one name may hold null or an empty object. -/
def taggedChoice? : Json → Option String
  | .object [(name, .object [])] => some name
  | j => j.choice?

end Json

/-- The fields of a record, by name. -/
abbrev Fields := List (String × Json)

namespace Json

/-- The fields of a value of a record with the given field names.  Besides an object,
an array is taken that lists the fields in the record's order and may stop early. -/
def record? (names : List String) : Json → Option Fields
  | .object members => some members
  | .array items => if items.length ≤ names.length then some (names.zip items) else none
  | _ => none

/-- The type tag of a tagged value, and the value that the tag is about.  The tag is a
field beside the others, or the first item of an array. -/
def tagged? (tag : String) : Json → Option (String × Json)
  | .object members => do
    let name ← (← members.lookup tag).text?
    return (name, .object members)
  | .array (first :: rest) => do
    let name ← first.text?
    return (name, .array rest)
  | _ => none

/-- The name and the contents of a value written as an object with one member. -/
def variant? : Json → Option (String × Json)
  | .object [(name, contents)] => some (name, contents)
  | _ => none

end Json

namespace Fields

/-- Reads a field that must be there. -/
def required (fields : Fields) (name : String) (read : Json → Option α) : Option α :=
  (fields.lookup name).bind read

/-- Reads a field that may be missing or null. -/
def optional (fields : Fields) (name : String) (read : Json → Option α) :
    Option (Option α) :=
  match fields.lookup name with
  | none => some none
  | some .null => some none
  | some j => (read j).map some

/-- Reads a field that stands for `value` when it is missing. -/
def orElse (fields : Fields) (name : String) (value : α) (read : Json → Option α) :
    Option α :=
  match fields.lookup name with
  | none => some value
  | some j => read j

/-- A field that is left out when there is nothing to write. -/
def ofOption (name : String) (encode : α → Json) : Option α → Fields
  | none => []
  | some a => [(name, encode a)]

end Fields

end FileRelay
