/-!
# Ways of opening a file

An open file is used for reading, for writing, or for both.
-/

namespace FileRelay

/-- What an open file may be used for. -/
inductive OpenMode where
  | read
  | write
  | readWrite
deriving DecidableEq, Repr, Inhabited

namespace OpenMode

/-- Every mode. -/
def all : List OpenMode := [read, write, readWrite]

/-- Whether data may be read from the file. -/
def canRead : OpenMode → Bool
  | read | readWrite => true
  | write => false

/-- Whether data may be written to the file. -/
def canWrite : OpenMode → Bool
  | write | readWrite => true
  | read => false

/-- The mode's name on the wire. -/
def name : OpenMode → String
  | read => "read"
  | write => "write"
  | readWrite => "read_write"

/-- The mode of a given name. -/
def ofName? (s : String) : Option OpenMode := all.find? (·.name == s)

/-- A mode is known by its name. -/
@[simp] theorem ofName?_name (mode : OpenMode) : ofName? mode.name = some mode := by
  cases mode <;> rfl

end OpenMode

end FileRelay
