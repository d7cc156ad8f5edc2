import FileRelay.Engine.Call

/-!
# Outstanding requests

The ledger lists the outstanding requests in the order of their creation, each
under its id and with the serial number that tells it from any other request of
that id.  A request is in the ledger exactly as long as it is outstanding.
-/

namespace FileRelay

/-- Who waits for a request. -/
inductive Owner where
  /-- A client of the request manager: its tag, and the scripts it left to be run. -/
  | client (tag : Option String) (onSuccess onError onPart : List Call)
  /-- The caller of an operation of the mount. -/
  | operation (expects : Expectation) (tag : Option String) (followUp : List Call)
deriving Inhabited

/-- An outstanding request. -/
structure Pending where
  id : RequestId
  serial : Nat
  kind : Request.Kind
  stage : Stage := .created
  /-- The milliseconds it is given, if limited. -/
  timeout : Option Nat
  /-- The clock time at which it is given up. -/
  deadline : Option Nat
  /-- Whether a part of the reply would be taken now.  A request whose reply comes
  in parts takes none while its callback is busy with one. -/
  accepting : Bool
  owner : Owner
deriving Inhabited

/-- The request once and for all. -/
def Pending.key (p : Pending) : RequestKey := ⟨p.id, p.serial⟩

/-- The outstanding requests, oldest first, and the next serial number. -/
structure Ledger where
  entries : List Pending := []
  nextSerial : Nat := 1
deriving Inhabited

namespace Ledger

/-- Adds a request as the newest, in place of any other under its id. -/
def insert (ledger : Ledger) (p : Pending) : Ledger where
  entries := ledger.entries.filter (·.id ≠ p.id) ++ [p]
  nextSerial := ledger.nextSerial + 1

/-- The outstanding request of an id. -/
def find? (ledger : Ledger) (id : RequestId) : Option Pending :=
  ledger.entries.find? (·.id = id)

/-- A given request, if it is outstanding: a later one under the same id is not it. -/
def findExact? (ledger : Ledger) (key : RequestKey) : Option Pending :=
  ledger.entries.find? (·.key = key)

/-- Takes out the request of an id. -/
def erase (ledger : Ledger) (id : RequestId) : Ledger :=
  { ledger with entries := ledger.entries.filter (·.id ≠ id) }

/-- Changes a given request, if it is outstanding. -/
def modify (ledger : Ledger) (key : RequestKey) (f : Pending → Pending) : Ledger :=
  { ledger with entries := ledger.entries.map fun p => if p.key = key then f p else p }

/-- How many requests are outstanding. -/
def size (ledger : Ledger) : Nat := ledger.entries.length

@[simp] theorem find?_erase_self (ledger : Ledger) (id : RequestId) :
    (ledger.erase id).find? id = none := by
  simp [find?, erase]

theorem find?_erase_of_ne {ledger : Ledger} {id other : RequestId} (h : other ≠ id) :
    (ledger.erase id).find? other = ledger.find? other := by
  rw [find?, erase, List.find?_filter]
  refine congrArg (List.find? · ledger.entries) (funext fun p => ?_)
  by_cases hp : p.id = other
  · simp [hp, h]
  · simp [hp]

@[simp] theorem find?_insert_self (ledger : Ledger) (p : Pending) :
    (ledger.insert p).find? p.id = some p := by
  have hnone : (ledger.erase p.id).find? p.id = none := find?_erase_self ledger p.id
  rw [find?, erase] at hnone
  rw [find?, insert, List.find?_append, hnone]
  simp

end Ledger

/-- How a request comes to its end. -/
inductive Ending where
  | completed (reply : Reply)
  | rejected (failure : Failure)
  | aborted
  | timedOut
  | shutDown
deriving DecidableEq, Repr, Inhabited

/-- The sort of an ending, as observers are told. -/
inductive Outcome where
  | completed
  | rejected
  | aborted
  | timedOut
  | shutDown
deriving DecidableEq, Repr, Inhabited

namespace Outcome

/-- Every outcome. -/
def all : List Outcome := [completed, rejected, aborted, timedOut, shutDown]

/-- The outcome's text. -/
def text : Outcome → String
  | completed => "completed"
  | rejected => "rejected"
  | aborted => "aborted"
  | timedOut => "timed out"
  | shutDown => "shut down"

/-- Whether the provider is to be told that nobody waits any more: if the request
was given up on this side while the provider may still be at work. -/
def abandoned : Outcome → Bool
  | aborted | timedOut => true
  | completed | rejected | shutDown => false

end Outcome

namespace Ending

/-- The sort of an ending. -/
def outcome : Ending → Outcome
  | completed _ => .completed
  | rejected _ => .rejected
  | aborted => .aborted
  | timedOut => .timedOut
  | shutDown => .shutDown

/-- What the one who waits is given. -/
def result : Ending → Except Failure Reply
  | completed reply => .ok reply
  | rejected failure => .error failure
  | aborted => .error .aborted
  | timedOut => .error .timedOut
  | shutDown => .error .shutdown

end Ending

end FileRelay
