import FileRelay.Engine.Notice

/-!
# Events

A run of the library is told as a history of events: callbacks and observers that
were invoked, requests and cancellations that went to the provider, answers that
calls were given, and notices logged on the way.  An event that concerns a request
names it by its key, so that requests of the same id stay apart.
-/

namespace FileRelay

/-- A moment in a request's life of which observers are told. -/
inductive Moment where
  | created (kind : Request.Kind)
  | delivered
  | progress
  | finished (kind : Request.Kind) (outcome : Outcome)
deriving DecidableEq, Repr, Inhabited

/-- The script a hook runs at its next turn, and the hook after it.  A hook without
turns left runs nothing. -/
def Hook.turn (hook : Hook α) : List α × Hook α :=
  (if hook.times = 0 then [] else hook.steps, { hook with times := hook.times - 1 })

/-- The script to run at a moment, and the hooks after it. -/
def Hooks.turn (hooks : Hooks α) : Moment → List α × Hooks α
  | .created _ => (hooks.created.turn.1, { hooks with created := hooks.created.turn.2 })
  | .delivered => (hooks.delivered.turn.1, { hooks with delivered := hooks.delivered.turn.2 })
  | .progress => (hooks.progress.turn.1, { hooks with progress := hooks.progress.turn.2 })
  | .finished .. => (hooks.finished.turn.1, { hooks with finished := hooks.finished.turn.2 })

/-- What a call may answer besides data. -/
inductive Word where
  | ok
  | noManager
  | noMount
  | noSlot
  | noDriver
  | waiting
  | finished
  | sent
  | full
  | closed
  | hungUp
deriving DecidableEq, Repr, Inhabited

/-- The text of a word. -/
def Word.text : Word → String
  | ok => "ok"
  | noManager => "no manager"
  | noMount => "no fs"
  | noSlot => "no slot"
  | noDriver => "no driver"
  | waiting => "waiting"
  | finished => "finished"
  | sent => "sent"
  | full => "full"
  | closed => "closed"
  | hungUp => "hung up"

/-- What a call answers. -/
inductive Answer where
  | none
  | word (word : Word)
  | flag (flag : Bool)
  | count (count : Nat)
  | id (id : UInt32)
  | ids (ids : List UInt32)
  /-- A request was created; the slot is where it can be aborted. -/
  | granted (request : RequestKey) (slot : Nat)
  | refused (failure : Failure)
  | stage (stage : Stage)
  | file (file : OpenFile)
  | files (files : List OpenFile)
  | info (info : MountInfo) (timeout : Option Nat)
  | messages (messages : List Outgoing)
deriving DecidableEq, Repr, Inhabited

/-- Something that happened. -/
inductive Event where
  /-- A client's callback for success was invoked. -/
  | succeeded (request : RequestKey) (tag : Option String) (reply : Reply)
  /-- A client's callback for failure was invoked. -/
  | failed (request : RequestKey) (tag : Option String) (failure : Failure)
  /-- A client's callback for parts of a reply was invoked. -/
  | part (request : RequestKey) (tag : Option String) (reply : Reply)
  /-- The callback of an operation was invoked. -/
  | done (request : RequestKey) (tag : Option String) (result : Except Failure Value)
  /-- An observer was told of a moment. -/
  | observed (name : String) (request : RequestKey) (moment : Moment)
  /-- A request was handed to the provider.  It is `shown` if the provider's end
  reports it itself. -/
  | handedOver (request : RequestKey) (content : Request) (shown : Bool)
  /-- The provider was told that nobody waits for a request any more. -/
  | cancelled (request : RequestKey) (shown : Bool)
  /-- A call was answered. -/
  | answered (call : Call) (answer : Answer)
  /-- A notice was logged. -/
  | noticed (notice : Notice)
deriving Inhabited

end FileRelay
