import FileRelay.Engine.Clock
import FileRelay.Engine.Link
import FileRelay.Engine.Task

/-!
# The state of a run

The state holds what later answers can show: the id pool, the outstanding requests,
timers and clock, observers, the mount with its open files and its link to the
provider, the agenda, and the history of what has happened so far, latest first.

The request manager and the mount are each there for as long as somebody holds or uses
them: the caller, or a call under way, whose use ends with a task that is on the
agenda meanwhile.  The mount holds the request manager.
-/

namespace FileRelay

/-- The state of a run. -/
structure State where
  /-- The id pool of the request manager and of the mount. -/
  pool : IdPool
  /-- A pool that the caller holds beside it; without one, the caller holds `pool`. -/
  callerPool : Option IdPool := none
  ledger : Ledger := {}
  timers : Timers := {}
  clock : Nat := 0
  /-- The first clock time that cannot be held. -/
  horizon : Nat
  /-- Whether there is anything that makes timers run. -/
  timersRun : Bool := true
  observers : List Observer := []
  /-- The script to run the next time a request is finished. -/
  finishScript : List Call := []
  mount : Option Mount := none
  /-- Whether the caller itself holds the request manager. -/
  holdsManager : Bool := false
  /-- The requests that can be aborted by slot. -/
  slots : List RequestKey := []
  agenda : List Task := []
  /-- What has happened, latest first. -/
  history : List Event := []
deriving Inhabited

namespace State

/-- Records an event. -/
def emit (s : State) (event : Event) : State := { s with history := event :: s.history }

/-- Logs a notice. -/
def note (s : State) (notice : Notice) : State := s.emit (.noticed notice)

/-- Answers a call. -/
def reply (s : State) (call : Call) (answer : Answer) : State := s.emit (.answered call answer)

/-- Puts tasks in front of the agenda. -/
def push (s : State) (tasks : List Task) : State := { s with agenda := tasks ++ s.agenda }

/-- The tasks that tell all present observers of a moment, in the order in which they
were added. -/
def tells (s : State) (request : RequestKey) (moment : Moment) : List Task :=
  (List.range s.observers.length).map fun i => .tell i request moment

/-- The mount, if the caller can get hold of it. -/
def heldMount? (s : State) : Option Mount := s.mount.filter (0 < ·.holders)

/-- The mount, if it is still there: held by the caller, or in use by a call under way. -/
def mount? (s : State) : Option Mount :=
  s.mount.filter fun m => 0 < m.holders || s.agenda.any Task.leavesMount

/-- Changes the mount. -/
def modifyMount (s : State) (f : Mount → Mount) : State := { s with mount := s.mount.map f }

/-- Changes the mount's end of a direct link. -/
def modifyDirect (s : State) (f : DirectLink → DirectLink) : State :=
  s.modifyMount fun m =>
    match m.link with
    | .direct link => { m with link := .direct (f link) }
    | .channel _ => m

/-- Changes the channels of a mount. -/
def modifyChannel (s : State) (f : ChannelLink → ChannelLink) : State :=
  s.modifyMount fun m =>
    match m.link with
    | .direct _ => m
    | .channel link => { m with link := .channel (f link) }

/-- The channels of the mount, if it is reached over channels. -/
def channel? (s : State) : Option ChannelLink :=
  match s.mount with
  | some { link := .channel link, .. } => some link
  | _ => none

/-- Whether the caller can get hold of the request manager. -/
def managerHeld (s : State) : Bool := s.holdsManager || s.heldMount?.isSome

/-- Whether the request manager is still there: held by the caller or the mount, or
in use by a call under way. -/
def managerAlive (s : State) : Bool :=
  s.holdsManager || s.mount?.isSome || s.agenda.any Task.leavesManager

/-- Drops the request manager once nobody holds or uses it.  What it held goes with it
silently; ids in use stay so, and so do timers, which will find nobody to call. -/
def discardManager (s : State) : State :=
  if s.managerAlive then s
  else { s with ledger := { s.ledger with entries := [] }, observers := [] }

/-- Takes the mount down once nobody holds or uses it, and with it goes its hold on the
request manager. -/
def discardMount (s : State) : State :=
  if s.mount?.isSome then s else s.push [.takeDown, .leaveManager]

end State

end FileRelay
