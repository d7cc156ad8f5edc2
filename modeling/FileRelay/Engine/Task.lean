import FileRelay.Engine.Event

/-!
# Tasks

A run is a sequence of small steps.  What is still to be done stands on the *agenda*,
a list of tasks of which the first comes next.  Each task is done in one step, which
no other code can observe half-way; code from outside acts only as tasks of its own,
between two steps.  So the places at which a callback, a hook or a script can call
back into the library are exactly the boundaries between tasks.
-/

namespace FileRelay

/-- Something still to be done. -/
inductive Task where
  /-- Make a call, in a script that runs for `self`. -/
  | issue (call : Call) (self : RequestId)
  /-- Give a call its answer. -/
  | answer (call : Call) (answer : Answer)
  /-- Answer a call that created a request, and fill the next slot. -/
  | grant (call : Call) (request : RequestKey)
  /-- Tell one observer of a moment. -/
  | tell (observer : Nat) (request : RequestKey) (moment : Moment)
  /-- Tell all observers that are there by then of a moment. -/
  | announce (request : RequestKey) (moment : Moment)
  /-- Finish a request that has left the ledger. -/
  | finish (pending : Pending) (ending : Ending)
  /-- Invoke the callback of a request that has left the ledger. -/
  | complete (pending : Pending) (ending : Ending)
  /-- Pass a part of a reply on to the request that it was accepted for. -/
  | pass (pending : Pending) (reply : Reply)
  /-- Let a request take parts of its reply again. -/
  | resume (request : RequestKey)
  /-- Hand a request to the provider. -/
  | handOver (request : RequestKey) (content : Request)
  /-- Act on what the provider's end said to a request handed over. -/
  | verdict (request : RequestKey)
  /-- Act on what the provider's end said to a cancellation. -/
  | cancelVerdict (request : RequestKey)
  /-- Take the mount down, if it is up. -/
  | takeDown
  /-- Forget the open files of a mount that was taken down with `aborted` requests. -/
  | closeFiles (aborted : Nat)
  /-- Invoke the callback of an operation. -/
  | done (request : RequestKey) (tag : Option String) (result : Except Failure Value)
      (followUp : List Call)
  /-- Route the next message from the provider. -/
  | poll
  /-- End a round of routing. -/
  | polled (word : Word)
  /-- Expire timers up to a clock time, and move the clock there. -/
  | elapse (time : Nat)
  /-- End the use of the request manager by a call under way. -/
  | leaveManager
  /-- End the use of the mount by a call under way. -/
  | leaveMount
deriving Inhabited

/-- Someone who is told of the moments in the life of requests. -/
inductive Observer where
  /-- Tells the provider of requests that were given up. -/
  | canceller
  /-- A client's observer, with a script for each moment. -/
  | watcher (name : String) (hooks : Hooks Call)
deriving Inhabited

namespace Task

/-- The tasks that run a script. -/
def script (steps : List Call) (self : RequestId) : List Task :=
  steps.map fun call => .issue call self

/-- Whether a task ends the use of the request manager by a call under way. -/
def leavesManager : Task → Bool
  | .leaveManager => true
  | _ => false

/-- Whether a task ends the use of the mount by a call under way. -/
def leavesMount : Task → Bool
  | .leaveMount => true
  | _ => false

end Task

end FileRelay
