import FileRelay.IdPool
import FileRelay.OpenMode

/-!
# The open files of a mount

The table of the files that the provider has opened for a mount, in ascending order
of their handle ids.  A file's handle id comes from the mount's id pool.  The id of
the request that opened it, by which the provider knows the file, is put in use
again while the file is open, if nobody else has taken it meanwhile, so that no
later request is mistaken for it.
-/

namespace FileRelay

/-- A file that the provider has opened. -/
structure OpenFile where
  id : HandleId
  path : String
  mode : OpenMode
  /-- The request that opened the file. -/
  openedBy : RequestId
  /-- Whether the provider has been asked to close the file. -/
  closing : Bool := false
  /-- Whether this entry is what keeps the id of `openedBy` in use. -/
  holdsOpener : Bool
deriving DecidableEq, Repr, Inhabited

/-- The ids of the pool that an open file keeps in use. -/
def OpenFile.ownedIds (file : OpenFile) : List UInt32 :=
  file.id.val :: if file.holdsOpener then [file.openedBy.val] else []

/-- The files open on a mount, by ascending handle id. -/
structure OpenFiles where
  files : List OpenFile := []
deriving Repr, Inhabited

namespace OpenFiles

/-- Puts a file at its place in a list ascending by handle id, over any file of the
same id. -/
def insertInto (file : OpenFile) : List OpenFile → List OpenFile
  | [] => [file]
  | other :: rest =>
    if file.id.val < other.id.val then file :: other :: rest
    else if file.id = other.id then file :: rest
    else other :: insertInto file rest

/-- Records a file just opened, under a fresh handle id.  The handle id is drawn
first; only then is the opener's id put in use again. -/
def add? (table : OpenFiles) (pool : IdPool) (path : String) (mode : OpenMode)
    (openedBy : RequestId) : Option (HandleId × OpenFiles × IdPool) :=
  match pool.next? with
  | none => none
  | some (n, pool) =>
    let file holds : OpenFile :=
      { id := ⟨n⟩, path, mode, openedBy, holdsOpener := holds }
    match pool.reserve? openedBy.val with
    | some pool => some (⟨n⟩, ⟨insertInto (file true) table.files⟩, pool)
    | none => some (⟨n⟩, ⟨insertInto (file false) table.files⟩, pool)

/-- The file of a given handle id. -/
def find? (table : OpenFiles) (id : HandleId) : Option OpenFile :=
  table.files.find? (·.id = id)

/-- The file of a given handle id, if it may be used: a file being closed may not. -/
def usable? (table : OpenFiles) (id : HandleId) : Option OpenFile :=
  (table.find? id).filter (!·.closing)

/-- Sets or clears the mark that a file is being closed. -/
def mark (table : OpenFiles) (id : HandleId) (closing : Bool) : OpenFiles :=
  ⟨table.files.map fun file => if file.id = id then { file with closing } else file⟩

/-- Marks a usable file as being closed, and returns it so marked. -/
def startClosing? (table : OpenFiles) (id : HandleId) : Option (OpenFile × OpenFiles) :=
  (table.usable? id).map fun file => ({ file with closing := true }, table.mark id true)

/-- Takes a file out of the table and frees the ids it kept in use. -/
def remove? (table : OpenFiles) (pool : IdPool) (id : HandleId) :
    Option (OpenFile × OpenFiles × IdPool) :=
  (table.find? id).map fun file =>
    (file, ⟨table.files.filter (·.id ≠ id)⟩, pool.releaseAll file.ownedIds)

/-- The pool after all files have been forgotten. -/
def releaseAll (table : OpenFiles) (pool : IdPool) : IdPool :=
  table.files.foldl (fun pool file => pool.releaseAll file.ownedIds) pool

/-- How many files are open. -/
def size (table : OpenFiles) : Nat := table.files.length

end OpenFiles

end FileRelay
