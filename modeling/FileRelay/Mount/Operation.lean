import FileRelay.Failure
import FileRelay.Mount.OpenFiles
import FileRelay.Mount.Settings
import FileRelay.Provider.Reply

/-!
# Operations on a mounted file system

An operation is checked against the mount before anything happens: what the mount
or an open file does not allow is refused at once.  An operation that passes
becomes one request to the provider.

The checks do not all come in one order.  A listing first looks whether it may
resume, opening first looks whether it may write, reading and writing first look at
the open file; only then does each ask whether the mount is up and writable.
Closing asks that first.
-/

namespace FileRelay

/-- What a caller may do with a mounted file system. -/
inductive Operation where
  | getMetadata (path : String)
  | readDirectory (path : String) (cursor : Option Cursor)
  | openFile (path : String) (mode : OpenMode)
  | closeFile (file : HandleId)
  | readData (file : HandleId) (offset length : UInt64)
  | writeData (file : HandleId) (offset : UInt64) (data : List UInt8)
  | createDirectory (path : String) (exclusive recursive : Bool)
  | createFile (path : String)
  | deleteEntry (path : String) (recursive : Bool)
  | copyEntry (source target : String)
  | moveEntry (source target : String)
  | truncate (path : String) (length : UInt64)
  | unmount
deriving DecidableEq, Repr, Inhabited

/-- The kind of request an operation becomes. -/
def Operation.kind : Operation → Request.Kind
  | getMetadata _ => .getMetadata
  | readDirectory .. => .readDirectory
  | openFile .. => .openFile
  | closeFile _ => .closeFile
  | readData .. => .readFile
  | writeData .. => .writeFile
  | createDirectory .. => .createDirectory
  | createFile _ => .createFile
  | deleteEntry .. => .deleteEntry
  | copyEntry .. => .copyEntry
  | moveEntry .. => .moveEntry
  | truncate .. => .truncate
  | unmount => .unmount

/-- Whether a request of some kind may be sent by a mount that is up or down: a
mount that is down sends nothing, one that is not writable no mutation. -/
def MountInfo.permits (info : MountInfo) (mounted : Bool) (kind : Request.Kind) :
    Except Failure Unit :=
  if !mounted then .error .shutdown
  else if kind.changesContents && !info.writable then .error .permissionDenied
  else .ok ()

/-- The open file that a caller wants to use. -/
def OpenFiles.use (table : OpenFiles) (id : HandleId) : Except Failure OpenFile :=
  match table.usable? id with
  | some file => .ok file
  | none => .error .notFound

/-- The request an operation becomes, or why it is refused. -/
def Operation.request (info : MountInfo) (mounted : Bool) (table : OpenFiles) :
    Operation → Except Failure Request
  | getMetadata path => admitted (.getMetadata path)
  | readDirectory path cursor =>
    if cursor.isSome && !info.supportsContinuation then .error .invalidInput
    else admitted (.readDirectory path cursor)
  | openFile path mode =>
    if mode.canWrite && !info.writable then .error .permissionDenied
    else admitted (.openFile path mode)
  | closeFile id => do
    info.permits mounted .closeFile
    let file ← table.use id
    return .closeFile file.openedBy
  | readData id offset length => do
    let file ← table.use id
    if !file.mode.canRead then .error .permissionDenied
    else admitted (.readFile file.openedBy offset length)
  | writeData id offset data => do
    let file ← table.use id
    if !file.mode.canWrite then .error .permissionDenied
    else admitted (.writeFile file.openedBy offset data)
  | createDirectory path exclusive recursive =>
    admitted (.createDirectory path exclusive recursive)
  | createFile path => admitted (.createFile path)
  | deleteEntry path recursive => admitted (.deleteEntry path recursive)
  | copyEntry source target => admitted (.copyEntry source target)
  | moveEntry source target => admitted (.moveEntry source target)
  | truncate path length => admitted (.truncate path length)
  | unmount => admitted .unmount
where
  admitted (request : Request) : Except Failure Request := do
    info.permits mounted request.kind
    return request

/-- What an operation gives its caller when it succeeds. -/
inductive Value where
  | nothing
  | metadata (entry : EntryInfo)
  | listing (page : ListingPage)
  | file (id : HandleId)
  | data (bytes : List UInt8)
deriving DecidableEq, Repr, Inhabited

/-- What an operation under way waits for.  A listing and a read hold what has
arrived so far; a part that does not fit spoils all of it for good. -/
inductive Expectation where
  | nothing
  | metadata
  | listing (soFar : Except Failure ListingPage)
  | data (soFar : Except Failure (List UInt8))
  | file (path : String) (mode : OpenMode)
  | closing (file : HandleId)
  | unmounting
deriving Repr, Inhabited

/-- What an operation waits for when it starts. -/
def Operation.expectation : Operation → Expectation
  | getMetadata _ => .metadata
  | readDirectory .. => .listing (.ok {})
  | openFile path mode => .file path mode
  | closeFile id => .closing id
  | readData .. => .data (.ok [])
  | unmount => .unmounting
  | writeData .. | createDirectory .. | createFile .. | deleteEntry .. | copyEntry ..
  | moveEntry .. | truncate .. => .nothing

namespace Expectation

/-- Whether a reply may come in several parts. -/
def streams : Expectation → Bool
  | listing _ | data _ => true
  | _ => false

/-- Adds a part of the reply to what has arrived so far. -/
def collect (part : Reply) : Expectation → Expectation
  | listing (.ok page) =>
    match page.append? part with
    | some page => listing (.ok page)
    | none => listing (.error .invalidData)
  | data (.ok bytes) =>
    match appendData? bytes part with
    | some bytes => data (.ok bytes)
    | none => data (.error .invalidData)
  | other => other

/-- A reply that should carry nothing. -/
def expectNothing : Reply → Except Failure Unit
  | .nothing => .ok ()
  | _ => .error .invalidData

/-- What the caller gets for the last reply.  For a file to open or close and for an
unmount this is only whether the reply fits; what follows from it happens elsewhere. -/
def resolve (last : Reply) : Expectation → Except Failure Value
  | metadata =>
    match last with
    | .metadata entry => .ok (.metadata entry)
    | _ => .error .invalidData
  | listing soFar => do
    let page ← soFar
    match page.append? last with
    | some page => return .listing page
    | none => .error .invalidData
  | data soFar => do
    let bytes ← soFar
    match appendData? bytes last with
    | some bytes => return .data bytes
    | none => .error .invalidData
  | nothing | file .. | closing _ | unmounting => do
    expectNothing last
    return .nothing

end Expectation

end FileRelay
