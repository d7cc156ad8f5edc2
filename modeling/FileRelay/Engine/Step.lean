import FileRelay.Engine.Serve

/-!
# Running

One step does the first task of the agenda.  A call from outside is put on an empty
agenda and stepped until the agenda is empty again; the last event is then its answer,
and the events before it are what happened on the way.
-/

namespace FileRelay.State

/-- Does one task. -/
def perform (s : State) : Task → State
  | .issue call self => s.issue call self
  | .answer call answer => s.reply call answer
  | .grant call request => s.grant call request
  | .tell observer request moment => s.tell observer request moment
  | .announce request moment => s.push (s.tells request moment)
  | .finish pending ending => s.finish pending ending
  | .complete pending ending => s.complete pending ending
  | .pass pending reply => s.pass pending reply
  | .resume request => s.resume request
  | .handOver request content => s.handOver request content
  | .verdict request => s.verdict request
  | .cancelVerdict request => s.cancelVerdict request
  | .takeDown => s.takeDown
  | .closeFiles aborted => s.closeFiles aborted
  | .done request tag result followUp => s.done request tag result followUp
  | .poll => s.poll
  | .polled word => s.polled word
  | .elapse time => s.elapse time
  | .leaveManager => s.discardManager
  | .leaveMount => s.discardMount

/-- Does the first task of the agenda, if there is one. -/
def step (s : State) : Option State :=
  match s.agenda with
  | [] => none
  | task :: rest => some ({ s with agenda := rest }.perform task)

/-- Does tasks until the agenda is empty, but no more than `fuel` of them. -/
def run : Nat → State → Option State
  | 0, s => if s.agenda.isEmpty then some s else none
  | fuel + 1, s =>
    match s.step with
    | none => some s
    | some s => run fuel s

/-- What a call from outside led to. -/
structure Turn where
  answer : Answer
  /-- What happened before the answer, in order. -/
  events : List Event
deriving Inhabited

/-- Makes a call from outside and runs until it is answered, within `fuel` steps. -/
def call (fuel : Nat) (s : State) (call : Call) : Option (Turn × State) := do
  let before := s.history.length
  let s ← (s.push [.issue call ⟨0⟩]).run fuel
  match s.history.take (s.history.length - before) with
  | .answered _ answer :: earlier => return (⟨answer, earlier.reverse⟩, s)
  | _ => none

end FileRelay.State
