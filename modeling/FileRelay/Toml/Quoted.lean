import FileRelay.Toml.Reader

/-!
# TOML strings and keys

A basic string stands in double quotes and knows escapes; a literal string stands in
single quotes and does not.  Tripled quotes enclose strings of several lines, in
which an end of line is always read as a line feed; the first is dropped if it follows
the opening quotes at once.
-/

namespace FileRelay.Toml

/-- A hexadecimal digit. -/
def isHex (c : Char) : Bool :=
  ('0' ≤ c && c ≤ '9') || ('a' ≤ c && c ≤ 'f') || ('A' ≤ c && c ≤ 'F')

/-- What a hexadecimal digit stands for. -/
def hexWeight (c : Char) : Nat :=
  if c ≤ '9' then c.toNat - 48 else if c ≤ 'F' then c.toNat - 55 else c.toNat - 87

/-- Reads a character given by `n` hexadecimal digits. -/
def scalar (n : Nat) : Reader Char := do
  let digits ← Reader.exactCount isHex n
  let code := digits.foldl (fun code c => 16 * code + hexWeight c) 0
  if code.isValidChar then return Char.ofNat code else Reader.fail

/-- Reads what follows a backslash. -/
def escape : Reader Char := do
  match ← Reader.one fun _ => true with
  | 'b' => return '\x08'
  | 't' => return '\t'
  | 'n' => return '\n'
  | 'f' => return '\x0c'
  | 'r' => return '\r'
  | '"' => return '"'
  | '\\' => return '\\'
  | 'u' => scalar 4
  | 'U' => scalar 8
  | _ => Reader.fail

/-- Reads the rest of a basic string, which holds at most `fuel` characters. -/
def basicRest : Nat → Reader (List Char)
  | 0 => Reader.fail
  | fuel + 1 => do
    match ← Reader.one fun c => isPlain c with
    | '"' => return []
    | '\\' =>
      let c ← escape
      return c :: (← basicRest fuel)
    | c => return c :: (← basicRest fuel)

/-- Reads the rest of a literal string. -/
def literalRest : Reader (List Char) := do
  let cs ← Reader.takeWhile fun c => isPlain c && c ≠ '\''
  Reader.exactly ['\'']
  return cs

/-- Reads a run of quotes in a string of several lines.  Three of them close it, and up
to two before those belong to it; a shorter run belongs to it altogether. -/
def quoteRun (quote : Char) : Reader (List Char × Bool) := fun cs =>
  let count := (cs.takeWhile (· = quote)).length
  if count < 3 then some ((List.replicate count quote, false), cs.drop count)
  else
    let count := min count 5
    some ((List.replicate (count - 3) quote, true), cs.drop count)

/-- Reads the end of a line within a string. -/
def innerNewline : Reader Char := do
  newline
  return '\n'

/-- Reads blanks and ends of lines, of which at most `fuel` are looked for. -/
def blankLines : Nat → Reader Unit
  | 0 => Reader.fail
  | fuel + 1 => do
    blanks
    match ← Reader.peek with
    | some '\n' | some '\r' =>
      newline
      blankLines fuel
    | _ => return ()

/-- Reads the blank rest of a line and the blank lines after it, which a backslash at
the end of a line removes. -/
def foldedLines : Reader Unit := do
  blanks
  newline
  let fuel ← Reader.remaining
  blankLines (fuel + 1)

/-- Reads the rest of a basic string of several lines. -/
def basicLines : Nat → Reader (List Char)
  | 0 => Reader.fail
  | fuel + 1 => do
    match ← Reader.peek with
    | some '"' =>
      let (quotes, closed) ← quoteRun '"'
      if closed then return quotes else return quotes ++ (← basicLines fuel)
    | some '\\' =>
      Reader.exactly ['\\']
      match ← Reader.peek with
      | some c =>
        if isBlank c || c = '\n' || c = '\r' then
          foldedLines
          basicLines fuel
        else
          let c ← escape
          return c :: (← basicLines fuel)
      | none => Reader.fail
    | some '\n' | some '\r' =>
      let c ← innerNewline
      return c :: (← basicLines fuel)
    | _ =>
      let c ← Reader.one isPlain
      return c :: (← basicLines fuel)

/-- Reads the rest of a literal string of several lines. -/
def literalLines : Nat → Reader (List Char)
  | 0 => Reader.fail
  | fuel + 1 => do
    match ← Reader.peek with
    | some '\'' =>
      let (quotes, closed) ← quoteRun '\''
      if closed then return quotes else return quotes ++ (← literalLines fuel)
    | some '\n' | some '\r' =>
      let c ← innerNewline
      return c :: (← literalLines fuel)
    | _ =>
      let c ← Reader.one isPlain
      return c :: (← literalLines fuel)

/-- Reads a string of one line. -/
def shortString : Reader String := do
  let fuel ← Reader.remaining
  match ← Reader.one fun _ => true with
  | '"' => return String.ofList (← basicRest fuel)
  | '\'' => return String.ofList (← literalRest)
  | _ => Reader.fail

/-- Reads a string. -/
def anyString : Reader String := fun cs =>
  let lines (body : Nat → Reader (List Char)) (rest : List Char) : Option (String × List Char) :=
    (do
      let _ ← Reader.optional newline
      let fuel ← Reader.remaining
      return String.ofList (← body (fuel + 1)) : Reader String) rest
  match cs with
  | '"' :: '"' :: '"' :: rest => lines basicLines rest
  | '\'' :: '\'' :: '\'' :: rest => lines literalLines rest
  | cs => shortString cs

/-- Reads one part of a key: a string of one line, or bare characters. -/
def keyPart : Reader String := do
  match ← Reader.peek with
  | some '"' | some '\'' => shortString
  | _ =>
    let cs ← Reader.takeWhile isBare
    if cs.isEmpty then Reader.fail else return String.ofList cs

/-- No key has this many parts, and no value stands in this many others. -/
def nestingLimit : Nat := 80

/-- Reads the parts of a key, joined by dots, with blanks around each. -/
def keyParts : Nat → Reader (List String)
  | 0 => Reader.fail
  | fuel + 1 => do
    blanks
    let part ← keyPart
    blanks
    match ← Reader.peek with
    | some '.' =>
      Reader.exactly ['.']
      return part :: (← keyParts fuel)
    | _ => return [part]

/-- Reads a key: the path to a table, and a name in it. -/
def key : Reader (List String × String) := do
  let parts ← keyParts (nestingLimit - 1)
  match parts.getLast? with
  | some name => return (parts.dropLast, name)
  | none => Reader.fail

end FileRelay.Toml
