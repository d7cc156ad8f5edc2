import FileRelay.Decimal
import FileRelay.Engine.Ledger

/-!
# Log notices

The library reports what it does as notices, each with a level, a fixed message and
named fields.
-/

namespace FileRelay

/-- How weighty a notice is. -/
inductive Level where
  | trace
  | debug
  | info
  | warn
deriving DecidableEq, Repr, Inhabited

/-- The level's name. -/
def Level.name : Level → String
  | trace => "TRACE"
  | debug => "DEBUG"
  | info => "INFO"
  | warn => "WARN"

/-- Something worth reporting. -/
inductive Notice where
  | mounted (providerId fileSystemId : String) (writable : Bool)
  | mountDown (fileSystemId : String) (aborted closed : Nat)
  | requestCreated (id : RequestId) (kind : Request.Kind)
  | timeoutTooLong (id : RequestId)
  | timersMissing (id : RequestId)
  | replyDropped (id : RequestId)
  | errorDropped (id : RequestId) (failure : Failure)
  | partDropped (id : RequestId)
  | partTaken (id : RequestId)
  | partRefused (id : RequestId)
  | requestTimedOut (id : RequestId) (kind : Request.Kind)
  | requestFinished (id : RequestId) (kind : Request.Kind) (outcome : Outcome)
  | shuttingDown (count : Nat)
  | notHandedOver (id : RequestId) (failure : Failure)
  | cancelNotTold (id : RequestId) (failure : Failure)
  | openedAfterRelease (id : RequestId) (path : String)
  | openedAfterShutdown (id : RequestId) (path : String)
  | routing (id : RequestId)
  | nothingToRoute
  | providerHungUp
  | providerGone (fileSystemId : String)
deriving DecidableEq, Repr, Inhabited

namespace Notice

/-- How weighty a notice is. -/
def level : Notice → Level
  | partTaken _ | routing _ => .trace
  | requestCreated .. | requestFinished .. | shuttingDown _ | cancelNotTold ..
  | nothingToRoute | providerHungUp => .debug
  | mounted .. | mountDown .. => .info
  | timeoutTooLong _ | timersMissing _ | replyDropped _ | errorDropped .. | partDropped _
  | partRefused _ | requestTimedOut .. | notHandedOver .. | openedAfterRelease ..
  | openedAfterShutdown .. | providerGone _ => .warn

/-- The fixed message of a notice. -/
def message : Notice → String
  | mounted .. => "provided file system mounted"
  | mountDown .. => "provided file system shut down"
  | requestCreated .. => "request created"
  | timeoutTooLong _ => "timeout is too large to schedule, request has no deadline"
  | timersMissing _ => "no tokio runtime available, request has no deadline"
  | replyDropped _ => "dropping reply for a request that is not outstanding"
  | errorDropped .. => "dropping error for a request that is not outstanding"
  | partDropped _ => "dropping progress for a request that is not outstanding"
  | partTaken _ => "progress"
  | partRefused _ => "request does not accept progress, chunk dropped"
  | requestTimedOut .. => "request timed out"
  | requestFinished .. => "request finished"
  | shuttingDown _ => "shutting down outstanding requests"
  | notHandedOver .. => "could not hand the request to the provider"
  | cancelNotTold .. => "provider could not be told about the cancellation"
  | openedAfterRelease .. =>
    "file opened after the file system was dropped, the provider keeps it open"
  | openedAfterShutdown .. => "file opened after shutdown, the provider keeps it open"
  | routing _ => "routing reply"
  | nothingToRoute => "file system is gone, no more replies to route"
  | providerHungUp => "provider hung up"
  | providerGone _ => "provider went away"

/-- An id as a field shows it. -/
def idText (id : RequestId) : String := Decimal.text id.val.toNat

/-- A truth value as a field shows it. -/
def flagText (b : Bool) : String := if b then "true" else "false"

/-- The named fields of a notice. -/
def fields : Notice → List (String × String)
  | mounted providerId fileSystemId writable =>
    [("provider_id", providerId), ("file_system_id", fileSystemId),
      ("writable", flagText writable)]
  | mountDown fileSystemId aborted closed =>
    [("file_system_id", fileSystemId), ("aborted", Decimal.text aborted),
      ("closed", Decimal.text closed)]
  | requestCreated id kind | requestTimedOut id kind =>
    [("request_id", idText id), ("kind", kind.name)]
  | timeoutTooLong id | timersMissing id | replyDropped id | partDropped id | partTaken id
  | partRefused id | routing id => [("request_id", idText id)]
  | errorDropped id failure => [("request_id", idText id), ("error", failure.message)]
  | requestFinished id kind outcome =>
    [("request_id", idText id), ("kind", kind.name), ("outcome", outcome.text)]
  | shuttingDown count => [("count", Decimal.text count)]
  | notHandedOver id failure | cancelNotTold id failure =>
    [("request_id", idText id), ("err", failure.message)]
  | openedAfterRelease id path | openedAfterShutdown id path =>
    [("open_request_id", idText id), ("path", path)]
  | nothingToRoute | providerHungUp => []
  | providerGone fileSystemId => [("file_system_id", fileSystemId)]

end Notice

end FileRelay
