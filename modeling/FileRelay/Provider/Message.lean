import FileRelay.Failure
import FileRelay.Provider.Reply

/-!
# Messages between a mount and its provider

When the two are joined by a channel, each request and each reply travels as one
message that names the request it belongs to.
-/

namespace FileRelay

/-- A message to the provider. -/
inductive Outgoing where
  /-- Carry out a request. -/
  | operation (id : RequestId) (request : Request)
  /-- Nobody waits for the request any more. -/
  | cancel (id : RequestId)
deriving DecidableEq, Repr, Inhabited

/-- A message from the provider. -/
inductive Incoming where
  /-- One part of a reply; more will follow. -/
  | progress (id : RequestId) (reply : Reply)
  | success (id : RequestId) (reply : Reply)
  | error (id : RequestId) (error : Fault)
deriving DecidableEq, Repr, Inhabited

/-- The request a message is about. -/
def Incoming.requestId : Incoming → RequestId
  | progress id _ | success id _ | error id _ => id

end FileRelay
