/-!
# TOML tables

A TOML document is a table of named values.  Tables come about in several ways: by a
header of their own, by being passed through on the way to another header, by dotted
keys, or written inline as a value.  A table may be defined only once, so the way in
which it came about decides who may still add to it.
-/

namespace FileRelay.Toml

/-- A value of a document. -/
inductive Node where
  | text (s : String)
  | int (n : Int)
  /-- A floating point number, as it was written. -/
  | float (written : String)
  | flag (flag : Bool)
  /-- A date, a time of day, or both, as it was written. -/
  | time (written : String)
  | array (items : List Node)
  /-- A table written inline, which nothing can be added to. -/
  | inline (members : List (String × Node))
  /-- A table that came about by a header or by keys: `passed` if it was only passed
  through so far, `dotted` if that was by dotted keys. -/
  | table (passed dotted : Bool) (members : List (String × Node))
  /-- An array of tables, each begun by a header; the latest first. -/
  | tables (items : List (List (String × Node)))
deriving Inhabited

/-- The members of a table in the order in which they were added. -/
abbrev Members := List (String × Node)

/-- Replaces the value of a name. -/
def Members.set (members : Members) (name : String) (value : Node) : Members :=
  members.map fun member => if member.1 = name then (name, value) else member

/-- Visits the table that a path leads to, from a table that itself came about by dotted
keys or not: the visitor is told which of the two the table is, takes something from
it, and may change it.  Tables missing on the way are created.  The path of a header
may pass through any table; the path of dotted keys through none that has a header of
its own.  Either goes on in the latest of an array of tables, and neither passes
through a value. -/
def Members.visit? (viaDots : Bool) (visitor : Bool → Members → Option (β × Members)) :
    Bool → Members → List String → Option (β × Members)
  | dotted, members, [] => visitor dotted members
  | _, members, name :: path =>
    match members.lookup name with
    | none => do
      let (b, inner) ← visit? viaDots visitor viaDots [] path
      return (b, members ++ [(name, .table true viaDots inner)])
    | some (.table passed dotted inner) =>
      if viaDots && !passed then none
      else do
        let (b, inner) ← visit? viaDots visitor dotted inner path
        return (b, set members name (.table passed dotted inner))
    | some (.tables (latest :: earlier)) => do
      let (b, latest) ← visit? viaDots visitor false latest path
      return (b, set members name (.tables (latest :: earlier)))
    | some _ => none

/-- Adds a value under a dotted key, given as the path to its table and its name there.
The name must be new, and a table reached by a path must have come about by dotted
keys. -/
def Members.insert? (members : Members) (path : List String) (name : String)
    (value : Node) : Option Members :=
  let add (dotted : Bool) (inner : Members) : Option (Unit × Members) :=
    if dotted = path.isEmpty then none
    else if (inner.lookup name).isSome then none
    else some ((), inner ++ [(name, value)])
  (visit? true add false members path).map Prod.snd

/-- A document under way: the tables that are complete, and the one being read, with
the path in its header. -/
structure Draft where
  root : Members := []
  current : Members := []
  path : List String := []
  /-- Whether the table being read is one of an array. -/
  isItem : Bool := false
deriving Inhabited

namespace Draft

/-- Puts the table being read to its place. -/
def close? (draft : Draft) : Option Members :=
  match draft.path.getLast? with
  | none => some draft.current
  | some name =>
    let put (_ : Bool) (members : Members) : Option (Unit × Members) :=
      match members.lookup name with
      | none =>
        let node : Node :=
          if draft.isItem then .tables [draft.current] else .table false false draft.current
        some ((), members ++ [(name, node)])
      | some (.tables earlier) =>
        if draft.isItem then some ((), members.set name (.tables (draft.current :: earlier)))
        else none
      | some _ => none
    (Members.visit? false put false draft.root draft.path.dropLast).map Prod.snd

/-- Begins the table of a header.  It must be new, or have been passed through by other
headers only, in which case it keeps what those brought about. -/
def openTable? (draft : Draft) (path : List String) : Option Draft := do
  let root ← draft.close?
  let name ← path.getLast?
  let take (_ : Bool) (members : Members) : Option (Members × Members) :=
    match members.lookup name with
    | none => some ([], members)
    | some (.table true false inner) => some (inner, members.filter (·.1 ≠ name))
    | some _ => none
  let (current, root) ← Members.visit? false take false root path.dropLast
  return { root, current, path, isItem := false }

/-- Begins a further table of the array of tables that a header names. -/
def openItem? (draft : Draft) (path : List String) : Option Draft := do
  let root ← draft.close?
  let name ← path.getLast?
  let check (_ : Bool) (members : Members) : Option (Unit × Members) :=
    match members.lookup name with
    | none | some (.tables _) => some ((), members)
    | some _ => none
  let ((), root) ← Members.visit? false check false root path.dropLast
  return { root, current := [], path, isItem := true }

/-- Adds a value to the table being read. -/
def insert? (draft : Draft) (path : List String) (name : String) (value : Node) :
    Option Draft :=
  (draft.current.insert? path name value).map fun current => { draft with current }

end Draft

end FileRelay.Toml
