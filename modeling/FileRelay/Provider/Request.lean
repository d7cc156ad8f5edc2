import FileRelay.Identifier
import FileRelay.OpenMode

/-!
# What a provider is asked to do

Each operation on a mounted file system becomes one request to its provider.  An
open file is named by the id of the request that opened it, the only name for it
that the provider knows.
-/

namespace FileRelay

/-- The sort of operation a request is for. -/
inductive Request.Kind where
  | unmount
  | getMetadata
  | readDirectory
  | openFile
  | closeFile
  | readFile
  | writeFile
  | createDirectory
  | createFile
  | deleteEntry
  | copyEntry
  | moveEntry
  | truncate
deriving DecidableEq, Repr, Inhabited

namespace Request.Kind

/-- Every kind. -/
def all : List Request.Kind :=
  [unmount, getMetadata, readDirectory, openFile, closeFile, readFile, writeFile,
    createDirectory, createFile, deleteEntry, copyEntry, moveEntry, truncate]

/-- The kind's name, on the wire and in logs. -/
def name : Request.Kind → String
  | unmount => "unmount"
  | getMetadata => "get_metadata"
  | readDirectory => "read_directory"
  | openFile => "open_file"
  | closeFile => "close_file"
  | readFile => "read_file"
  | writeFile => "write_file"
  | createDirectory => "create_directory"
  | createFile => "create_file"
  | deleteEntry => "delete_entry"
  | copyEntry => "copy_entry"
  | moveEntry => "move_entry"
  | truncate => "truncate"

/-- The kind of a given name. -/
def ofName? (s : String) : Option Request.Kind := all.find? (·.name == s)

/-- Whether the operation changes the contents of the file system. -/
def changesContents : Request.Kind → Bool
  | writeFile | createDirectory | createFile | deleteEntry | copyEntry | moveEntry
  | truncate => true
  | unmount | getMetadata | readDirectory | openFile | closeFile | readFile => false

/-- A kind is known by its name. -/
@[simp] theorem ofName?_name (kind : Request.Kind) : ofName? kind.name = some kind := by
  cases kind <;> rfl

end Request.Kind

/-- A token by which a listing is taken up again where a page of it ended. -/
structure Cursor where
  token : String
deriving DecidableEq, Repr, Inhabited

/-- A request as the provider receives it.  Paths are passed on as they are. -/
inductive Request where
  | unmount
  | getMetadata (path : String)
  | readDirectory (path : String) (cursor : Option Cursor)
  | openFile (path : String) (mode : OpenMode)
  | closeFile (openedBy : RequestId)
  | readFile (openedBy : RequestId) (offset length : UInt64)
  | writeFile (openedBy : RequestId) (offset : UInt64) (data : List UInt8)
  | createDirectory (path : String) (exclusive recursive : Bool)
  | createFile (path : String)
  | deleteEntry (path : String) (recursive : Bool)
  | copyEntry (source target : String)
  | moveEntry (source target : String)
  | truncate (path : String) (length : UInt64)
deriving DecidableEq, Repr, Inhabited

/-- The kind of a request. -/
def Request.kind : Request → Request.Kind
  | unmount => .unmount
  | getMetadata .. => .getMetadata
  | readDirectory .. => .readDirectory
  | openFile .. => .openFile
  | closeFile .. => .closeFile
  | readFile .. => .readFile
  | writeFile .. => .writeFile
  | createDirectory .. => .createDirectory
  | createFile .. => .createFile
  | deleteEntry .. => .deleteEntry
  | copyEntry .. => .copyEntry
  | moveEntry .. => .moveEntry
  | truncate .. => .truncate

end FileRelay
