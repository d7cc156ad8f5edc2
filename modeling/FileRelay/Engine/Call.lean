import FileRelay.Mount.Operation
import FileRelay.Provider.Message

/-!
# Calls

Everything that code outside the library may ask of it is a *call*.  Such code also
runs inside the library, whenever a callback, an observer's hook or the provider's
end is invoked; what it does there is a *script*, a list of calls made one after
the other, and a script may hold calls that bring scripts of their own.  So a call
is data, and every way in which code can call back into the library, to any depth,
is one of these values.
-/

namespace FileRelay

/-- The request a call is about: one given by its id, or the one that the running
script was invoked for. -/
inductive RequestRef where
  | self
  | given (id : RequestId)
deriving DecidableEq, Repr, Inhabited

/-- The id meant, in a script that runs for `self`. -/
def RequestRef.resolve (self : RequestId) : RequestRef → RequestId
  | .self => self
  | .given id => id

/-- Where an outstanding request stands. -/
inductive Stage where
  /-- Registered, but not yet accepted by the provider. -/
  | created
  /-- Handed to the provider, and waiting for its reply. -/
  | delivered
deriving DecidableEq, Repr, Inhabited

/-- What may be delivered to an outstanding request. -/
inductive Delivery where
  /-- One part of the reply, after which the request stays outstanding. -/
  | part (reply : Reply)
  | success (reply : Reply)
  | error (failure : Failure)
deriving DecidableEq, Repr, Inhabited

/-- The delivery that a provider's message asks for. -/
def Incoming.delivery : Incoming → Delivery
  | progress _ reply => .part reply
  | success _ reply => .success reply
  | error _ e => .error (.provider e)

/-- A script that runs each time its moment comes, but only so many times. -/
structure Hook (α : Type) where
  steps : List α := []
  times : Nat := 1
deriving Repr, Inhabited

/-- The hooks of an observer, one for each moment of a request's life. -/
structure Hooks (α : Type) where
  created : Hook α := {}
  delivered : Hook α := {}
  progress : Hook α := {}
  finished : Hook α := {}
deriving Repr, Inhabited

/-- Calls on an id pool. -/
inductive PoolCall where
  | next
  | nextMany (count : Nat)
  | reserve (id : RequestRef)
  | release (id : RequestRef)
  | isLive (id : RequestRef)
  | liveCount
  | rewind (next : UInt32)
deriving DecidableEq, Repr, Inhabited

/-- A call. -/
inductive Call where
  /-- A call on the caller's id pool. -/
  | pool (call : PoolCall)
  /-- Registers a request that is given at most `timeout` milliseconds, and names
  the scripts to run when it succeeds, when it fails, and, if its reply may come in
  parts, for each part. -/
  | create (kind : Request.Kind) (timeout : Option Nat) (streams : Bool)
      (tag : Option String) (onSuccess onError onPart : List Call)
  /-- Records that the provider accepted a request. -/
  | markDelivered (id : RequestRef)
  | deliver (id : RequestRef) (delivery : Delivery)
  /-- Fails a request as if its deadline had passed. -/
  | timeOut (id : RequestRef)
  | abort (id : RequestRef)
  | contains (id : RequestRef)
  | stage (id : RequestRef)
  | count
  | isEmpty
  /-- Fails every outstanding request. -/
  | shutDownRequests
  /-- Aborts the request whose creation filled a slot. -/
  | abortSlot (slot : Nat)
  | slotPending (slot : Nat)
  /-- Asks whether the request manager is still there, and for how many requests. -/
  | managerSize
  | observe (name : String) (hooks : Hooks Call)
  /-- Sets the script to run the next time a request is finished, after it left the
  table and before its callback is invoked. -/
  | onFinish (steps : List Call)
  /-- Lets go of the request manager that the caller holds. -/
  | releaseManager
  /-- Starts an operation of the mount, and names the script to run at its end. -/
  | operate (operation : Operation) (tag : Option String) (followUp : List Call)
  /-- Takes the mount down. -/
  | shutDown
  | file (id : HandleId)
  | info
  /-- Holds the mount once more. -/
  | shareMount
  /-- Lets go of the mount once. -/
  | releaseMount
  /-- Keeps hold of the mount's request manager. -/
  | keepManager
  /-- Tells the provider's end how to meet requests and cancellations. -/
  | instruct (deliverError cancelError : Option Failure) (onDeliver onCancel : List Call)
  /-- At the provider's end of the channel: takes all waiting messages. -/
  | receive
  | send (message : Incoming)
  | stopListening
  | hangUp
  /-- Lets the reply driver route what has arrived. -/
  | pump
  | discardDriver
  /-- Moves the clock forward by `millis`. -/
  | advance (millis : Nat)
deriving Inhabited

end FileRelay
