/-!
# Reading TOML, character by character

A reader takes what it reads from the front of the characters that are left, and has
no answer where the document is not well formed.  Here are the smallest readers:
blanks, comments, ends of lines, and keys.
-/

namespace FileRelay.Toml

/-- Reads an `α` from the front of a text. -/
abbrev Reader (α : Type) := StateT (List Char) Option α

namespace Reader

/-- Reads characters for as long as they are of a kind. -/
def takeWhile (p : Char → Bool) : Reader (List Char) :=
  fun cs => some (cs.takeWhile p, cs.dropWhile p)

/-- The next character, which is left in place. -/
def peek : Reader (Option Char) := fun cs => some (cs.head?, cs)

/-- Reads the given characters. -/
def exactly (expected : List Char) : Reader Unit :=
  fun cs => if expected.isPrefixOf cs then some ((), cs.drop expected.length) else none

/-- Reads a character of a kind. -/
def one (p : Char → Bool) : Reader Char
  | [] => none
  | c :: rest => if p c then some (c, rest) else none

/-- Reads exactly `n` characters of a kind. -/
def exactCount (p : Char → Bool) : Nat → Reader (List Char)
  | 0 => pure []
  | n + 1 => do
    let c ← one p
    let cs ← exactCount p n
    return c :: cs

/-- Reads with `reader` if that succeeds, and otherwise nothing. -/
def optional (reader : Reader α) : Reader (Option α) := fun cs =>
  match reader cs with
  | some (a, rest) => some (some a, rest)
  | none => some (none, cs)

/-- Fails. -/
def fail : Reader α := fun _ => none

/-- How many characters are left. -/
def remaining : Reader Nat := fun cs => some (cs.length, cs)

end Reader

/-- A blank within a line. -/
def isBlank (c : Char) : Bool := c = ' ' || c = '\t'

/-- A character that may stand in a comment or a text: all but control characters,
of which only the tab is allowed. -/
def isPlain (c : Char) : Bool := c = '\t' || (' ' ≤ c && c ≠ '\x7f')

/-- A character of a key without quotes. -/
def isBare (c : Char) : Bool :=
  ('A' ≤ c && c ≤ 'Z') || ('a' ≤ c && c ≤ 'z') || ('0' ≤ c && c ≤ '9') || c = '_' || c = '-'

/-- Reads blanks. -/
def blanks : Reader Unit := do
  let _ ← Reader.takeWhile isBlank

/-- Reads the end of a line: a line feed, which a carriage return may precede. -/
def newline : Reader Unit
  | '\n' :: rest => some ((), rest)
  | '\r' :: '\n' :: rest => some ((), rest)
  | _ => none

/-- Reads the end of a line, or of the document. -/
def lineEnd : Reader Unit
  | [] => some ((), [])
  | cs => newline cs

/-- Reads a comment up to the end of its line, if there is one. -/
def comment : Reader Unit
  | '#' :: rest => some ((), rest.dropWhile isPlain)
  | cs => some ((), cs)

/-- Reads what may follow on a line: blanks, a comment, and the end of the line. -/
def restOfLine : Reader Unit := do
  blanks
  comment
  lineEnd

/-- Reads blanks, comments and ends of lines, of which at most `fuel` are looked for. -/
def gap : Nat → Reader Unit
  | 0 => Reader.fail
  | fuel + 1 => do
    blanks
    match ← Reader.peek with
    | some '#' =>
      comment
      newline
      gap fuel
    | some '\n' | some '\r' =>
      newline
      gap fuel
    | _ => return ()

end FileRelay.Toml
