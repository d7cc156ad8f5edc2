import FileRelay.Engine.Transport

/-!
# Invoking callbacks

What a finished request was waiting for decides what happens when its callback is
invoked.  A client's callback is invoked with the reply or the failure as it is.  The
caller of an operation gets a result: before it does, a file just opened enters the
table, a file whose close succeeded leaves it (one whose close failed may be used
again), and an unmount that was granted takes the mount down.
-/

namespace FileRelay.State

/-- Records a file that the provider has opened, if the mount is still there and up:
the provider keeps any other open, unknown to anybody.  There is no answer while
every id is in use. -/
def registerFile? (s : State) (openedBy : RequestId) (path : String) (mode : OpenMode) :
    Option (State × Except Failure Value) :=
  match s.mount? with
  | none => some (s.note (.openedAfterRelease openedBy path), .error .shutdown)
  | some m =>
    if m.mounted then
      match m.files.add? s.pool path mode openedBy with
      | none => none
      | some (id, files, pool) =>
        some ({ s with pool, mount := some { m with files } }, .ok (.file id))
    else some (s.note (.openedAfterShutdown openedBy path), .error .shutdown)

/-- Ends the closing of a file: on success the file is forgotten, otherwise it may be
used again. -/
def endClose (s : State) (id : HandleId) (success : Bool) : State :=
  match s.mount? with
  | none => s
  | some m =>
    if success then
      match m.files.remove? s.pool id with
      | none => s
      | some (_, files, pool) => { s with pool, mount := some { m with files } }
    else { s with mount := some { m with files := m.files.mark id false } }

/-- Completes a request of an operation, up to the callback of its caller. -/
def completeOperation (s : State) (p : Pending) (ending : Ending) (expects : Expectation)
    (tag : Option String) (followUp : List Call) : State :=
  let result : Except Failure Value := ending.result >>= fun reply => expects.resolve reply
  let done (result : Except Failure Value) : Task := .done p.key tag result followUp
  match expects, result with
  | .file path mode, .ok _ =>
    match s.registerFile? p.id path mode with
    | none => s.push [.complete p ending]
    | some (s, result) => s.push [done result]
  | .closing id, result => (s.endClose id result.toBool).push [done result]
  | .unmounting, .ok value =>
    if s.mount?.isSome then s.push [.takeDown, .leaveMount, done (.ok value)]
    else s.push [done (.ok value)]
  | _, result => s.push [done result]

/-- Invokes the callback of a finished request. -/
def complete (s : State) (p : Pending) (ending : Ending) : State :=
  match p.owner with
  | .client tag onSuccess onError _ =>
    match ending.result with
    | .ok reply => (s.emit (.succeeded p.key tag reply)).push (Task.script onSuccess p.id)
    | .error failure => (s.emit (.failed p.key tag failure)).push (Task.script onError p.id)
  | .operation expects tag followUp => s.completeOperation p ending expects tag followUp

/-- Invokes the callback of an operation.  Its script runs for no request: the id it
refers to is zero. -/
def done (s : State) (request : RequestKey) (tag : Option String)
    (result : Except Failure Value) (followUp : List Call) : State :=
  (s.emit (.done request tag result)).push (Task.script followUp ⟨0⟩)

/-- Takes the mount down: nothing is accepted from here on, and all outstanding
requests are finished before the open files are forgotten. -/
def takeDown (s : State) : State :=
  match s.mount with
  | some m =>
    if m.mounted then
      let s : State := { s with mount := some { m with mounted := false } }
      s.drain [.closeFiles s.ledger.size]
    else s
  | none => s

/-- Forgets the open files of a mount that was taken down. -/
def closeFiles (s : State) (aborted : Nat) : State :=
  match s.mount with
  | some m =>
    let s : State := { s with
      pool := m.files.releaseAll s.pool
      mount := some { m with files := {} } }
    s.note (.mountDown m.settings.info.fileSystemId aborted m.files.size)
  | none => s

end FileRelay.State
