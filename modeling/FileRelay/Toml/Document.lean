import FileRelay.Toml.Number

/-!
# TOML documents

Values, arrays, inline tables, and the document as a whole: lines that set a value,
and headers that begin a table.
-/

namespace FileRelay.Toml

mutual

/-- Reads a value that stands in fewer than `depth` others.  The fuel bounds the steps
taken, each of which reads something. -/
def value (depth : Nat) : Nat → Reader Node
  | 0 => Reader.fail
  | fuel + 1 => do
    match ← Reader.peek with
    | some '"' | some '\'' => return .text (← anyString)
    | some '[' =>
      match depth with
      | 0 => Reader.fail
      | depth + 1 =>
        Reader.exactly ['[']
        return .array (← arrayRest depth fuel)
    | some '{' =>
      match depth with
      | 0 => Reader.fail
      | depth + 1 =>
        Reader.exactly ['{']
        blanks
        match ← Reader.peek with
        | some '}' =>
          Reader.exactly ['}']
          return .inline []
        | _ => return .inline (← inlineRest depth fuel [])
    | some 't' =>
      Reader.exactly ['t', 'r', 'u', 'e']
      return .flag true
    | some 'f' =>
      Reader.exactly ['f', 'a', 'l', 's', 'e']
      return .flag false
    | some c =>
      if Decimal.isDigit c || c = '+' || c = '-' || c = 'i' || c = 'n' then number
      else Reader.fail
    | none => Reader.fail

/-- Reads the rest of an array: items set off by commas, of which the last may be
followed by one. -/
def arrayRest (depth : Nat) : Nat → Reader (List Node)
  | 0 => Reader.fail
  | fuel + 1 => do
    gap (fuel + 1)
    match ← Reader.peek with
    | some ']' =>
      Reader.exactly [']']
      return []
    | _ =>
      let item ← value depth fuel
      gap (fuel + 1)
      match ← Reader.peek with
      | some ',' =>
        Reader.exactly [',']
        return item :: (← arrayRest depth fuel)
      | _ =>
        Reader.exactly [']']
        return [item]

/-- Reads the rest of an inline table, of which some members have been read. -/
def inlineRest (depth : Nat) : Nat → Members → Reader Members
  | 0, _ => Reader.fail
  | fuel + 1, members => do
    let (path, name) ← key
    Reader.exactly ['=']
    blanks
    let v ← value depth fuel
    blanks
    match members.insert? path name v with
    | none => Reader.fail
    | some members =>
      match ← Reader.peek with
      | some ',' =>
        Reader.exactly [',']
        inlineRest depth fuel members
      | _ =>
        Reader.exactly ['}']
        return members

end

/-- Reads a header, with one bracket or two, and begins its table. -/
def header (draft : Draft) : Reader Draft := fun cs =>
  let begun (draft? : Option Draft) : Reader Draft :=
    match draft? with
    | some draft => return draft
    | none => Reader.fail
  match cs with
  | '[' :: '[' :: rest =>
    (do
      let (path, name) ← key
      Reader.exactly [']', ']']
      restOfLine
      begun (draft.openItem? (path ++ [name])) : Reader Draft) rest
  | '[' :: rest =>
    (do
      let (path, name) ← key
      Reader.exactly [']']
      restOfLine
      begun (draft.openTable? (path ++ [name])) : Reader Draft) rest
  | _ => none

/-- Reads a line that sets a value. -/
def setting (draft : Draft) : Reader Draft := do
  let (path, name) ← key
  Reader.exactly ['=']
  blanks
  let fuel ← Reader.remaining
  let v ← value (nestingLimit - 1) (2 * fuel + 2)
  restOfLine
  match draft.insert? path name v with
  | some draft => return draft
  | none => Reader.fail

/-- Reads the lines of a document. -/
def lines : Nat → Draft → Reader Draft
  | 0, _ => Reader.fail
  | fuel + 1, draft => do
    blanks
    match ← Reader.peek with
    | none => return draft
    | some '#' =>
      comment
      lineEnd
      lines fuel draft
    | some '[' => lines fuel (← header draft)
    | some '\n' | some '\r' =>
      newline
      lines fuel draft
    | _ => lines fuel (← setting draft)

/-- Reads a document, which may begin with a byte order mark. -/
def read? (source : String) : Option Members := do
  let cs :=
    match source.toList with
    | '\uFEFF' :: rest => rest
    | cs => cs
  let (draft, _) ← lines (cs.length + 1) {} cs
  draft.close?

end FileRelay.Toml
