import FileRelay.Engine.PoolCall

/-!
# An id pool and a table of open files by themselves

A pool and a table that draws from it can be used without a mount around them, one
call after the other.
-/

namespace FileRelay

/-- Calls on a table of open files. -/
inductive FileCall where
  | register (path : String) (mode : OpenMode) (openedBy : RequestId)
  | lookup (id : HandleId)
  | lookupUsable (id : HandleId)
  | beginClose (id : HandleId)
  | cancelClose (id : HandleId)
  | unregister (id : HandleId)
  | clear
  | size
  | isEmpty
deriving DecidableEq, Repr, Inhabited

/-- A pool, and a table of open files that draws from it. -/
structure Tables where
  pool : IdPool
  files : OpenFiles := {}
deriving Inhabited

namespace Tables

/-- Makes a call on the pool; there is no answer to one that has to wait for a free
id. -/
def callPool? (tables : Tables) (call : PoolCall) : Option (Answer × Tables) :=
  (call.serve? tables.pool ⟨0⟩).map fun (pool, answer) => (answer, { tables with pool })

/-- The answer that gives a file, if there is one. -/
def fileAnswer : Option OpenFile → Answer
  | some file => .file file
  | none => .refused .notFound

/-- Makes a call on the table. -/
def callFiles? (tables : Tables) : FileCall → Option (Answer × Tables)
  | .register path mode openedBy =>
    (tables.files.add? tables.pool path mode openedBy).map fun (id, files, pool) =>
      (.id id.val, { pool, files })
  | .lookup id => some (fileAnswer (tables.files.find? id), tables)
  | .lookupUsable id => some (fileAnswer (tables.files.usable? id), tables)
  | .beginClose id =>
    match tables.files.startClosing? id with
    | some (file, files) => some (.file file, { tables with files })
    | none => some (.refused .notFound, tables)
  | .cancelClose id =>
    let wasClosing := (tables.files.find? id).any (·.closing)
    some (.flag wasClosing, { tables with files := tables.files.mark id false })
  | .unregister id =>
    match tables.files.remove? tables.pool id with
    | some (file, files, pool) => some (.file file, { pool, files })
    | none => some (.refused .notFound, tables)
  | .clear =>
    some (.files tables.files.files, { pool := tables.files.releaseAll tables.pool, files := {} })
  | .size => some (.count tables.files.size, tables)
  | .isEmpty => some (.flag (tables.files.size == 0), tables)

end Tables

end FileRelay
