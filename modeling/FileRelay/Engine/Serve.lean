import FileRelay.Engine.PoolCall
import FileRelay.Engine.Routing

/-!
# Answering calls

Each call is answered by exactly one event.  A call that sets nothing off is answered
at once; any other leaves its answer on the agenda, behind the tasks that it set off.
A call that uses the request manager keeps it alive until then.
-/

namespace FileRelay.State

/-- The id pool that the caller holds. -/
def heldPool (s : State) : IdPool := s.callerPool.getD s.pool

/-- Changes the id pool that the caller holds. -/
def setHeldPool (s : State) (pool : IdPool) : State :=
  if s.callerPool.isSome then { s with callerPool := some pool } else { s with pool }

/-- The tasks that end a call on the request manager. -/
def ending (call : Call) (answer : Answer) : List Task := [.leaveManager, .answer call answer]

/-- Aborts a request, if there is one to abort. -/
def abort (s : State) (call : Call) (p : Option Pending) : State :=
  match p with
  | none => s.reply call (.refused .notFound)
  | some p => (s.push (ending call (.word .ok))).finishNow p .aborted

/-- Registers a client's request. -/
def create (s : State) (call : Call) (self : RequestId) (kind : Request.Kind)
    (timeout : Option Nat) (streams : Bool) (owner : Owner) : State :=
  match s.register? kind timeout streams owner with
  | none => s.push [.issue call self]
  | some (s, key) => s.push (s.tells key (.created kind) ++ [.leaveManager, .grant call key])

/-- Starts an operation of the mount.  One that is refused leaves no trace but its
answer. -/
def operate (s : State) (call : Call) (self : RequestId) (operation : Operation)
    (tag : Option String) (followUp : List Call) : State :=
  match s.heldMount? with
  | none => s.reply call (.word .noMount)
  | some m =>
    match operation.request m.settings.info m.mounted m.files with
    | .error failure => s.reply call (.refused failure)
    | .ok content =>
      let expects := operation.expectation
      let owner := Owner.operation expects tag followUp
      match s.register? content.kind m.timeout expects.streams owner with
      | none => s.push [.issue call self]
      | some (s, key) =>
        let s :=
          match operation with
          | .closeFile id => s.modifyMount fun m => { m with files := m.files.mark id true }
          | _ => s
        s.push (s.tells key (.created content.kind) ++
          [.handOver key content, .verdict key, .leaveMount, .grant call key])

/-- Makes a call on the request manager, if the caller can get hold of it. -/
def withManager (s : State) (call : Call) (serve : State) : State :=
  if s.managerHeld then serve else s.reply call (.word .noManager)

/-- Makes a call on the mount, if there is one. -/
def withMount (s : State) (call : Call) (serve : Mount → State) : State :=
  match s.heldMount? with
  | none => s.reply call (.word .noMount)
  | some m => serve m

/-- Puts a message from the provider into the channel. -/
def send (s : State) (message : Incoming) : State × Word :=
  match s.channel? with
  | none => (s, .closed)
  | some link =>
    if !link.sending then (s, .hungUp)
    else if link.driver = .discarded then (s, .closed)
    else if link.capacity ≤ link.inbox.length then (s, .full)
    else (s.modifyChannel ({ · with inbox := link.inbox ++ [message] }), .sent)

/-- Makes a call at the provider's end of the channel or on the reply driver. -/
def serveChannel (s : State) (call : Call) (link : ChannelLink) : State :=
  match call with
  | .receive =>
    if link.listening then
      (s.modifyChannel ({ · with outbox := [] })).reply call (.messages link.outbox)
    else s.reply call (.word .closed)
  | .stopListening =>
    (s.modifyChannel ({ · with listening := false, outbox := [] })).reply call
      (.flag link.listening)
  | .hangUp => (s.modifyChannel ({ · with sending := false })).reply call (.flag link.sending)
  | .pump =>
    if link.driver = .idle then (s.modifyChannel ({ · with driver := .polling })).push [.poll]
    else s.reply call (.word .noDriver)
  | .discardDriver =>
    if link.driver = .idle then
      (s.modifyChannel ({ · with driver := .discarded, inbox := [] })).reply call (.flag true)
    else s.reply call (.flag false)
  | _ => s

/-- Makes a call, in a script that runs for `self`. -/
def issue (s : State) (call : Call) (self : RequestId) : State :=
  match call with
  | .pool poolCall =>
    match poolCall.serve? s.heldPool self with
    | none => s.push [.issue call self]
    | some (pool, answer) => (s.setHeldPool pool).reply call answer
  | .create kind timeout streams tag onSuccess onError onPart =>
    s.withManager call
      (s.create call self kind timeout streams (.client tag onSuccess onError onPart))
  | .markDelivered ref =>
    let id := ref.resolve self
    s.withManager call
      ((s.push (ending call (.flag (s.ledger.find? id).isSome))).markDelivered id)
  | .deliver ref delivery =>
    let id := ref.resolve self
    s.withManager call
      ((s.push (ending call (.flag (s.ledger.find? id).isSome))).deliver id delivery)
  | .timeOut ref =>
    s.withManager call <|
      match s.ledger.find? (ref.resolve self) with
      | none => s.reply call (.flag false)
      | some p => (s.push (ending call (.flag true))).timeOut p
  | .abort ref => s.withManager call (s.abort call (s.ledger.find? (ref.resolve self)))
  | .contains ref =>
    s.withManager call (s.reply call (.flag (s.ledger.find? (ref.resolve self)).isSome))
  | .stage ref =>
    s.withManager call <|
      match s.ledger.find? (ref.resolve self) with
      | none => s.reply call .none
      | some p => s.reply call (.stage p.stage)
  | .count => s.withManager call (s.reply call (.count s.ledger.size))
  | .isEmpty => s.withManager call (s.reply call (.flag (s.ledger.size == 0)))
  | .shutDownRequests =>
    s.withManager call (s.drain (ending call (.count s.ledger.size)))
  | .abortSlot slot =>
    match s.slots[slot]? with
    | none => s.reply call (.word .noSlot)
    | some key => s.abort call (s.ledger.findExact? key)
  | .slotPending slot =>
    match s.slots[slot]? with
    | none => s.reply call (.word .noSlot)
    | some key => s.reply call (.flag (s.ledger.findExact? key).isSome)
  | .managerSize =>
    s.reply call (if s.managerAlive then .count s.ledger.size else .none)
  | .observe name hooks =>
    s.withManager call
      (({ s with observers := s.observers ++ [.watcher name hooks] } : State).reply call .none)
  | .onFinish steps => ({ s with finishScript := steps } : State).reply call .none
  | .releaseManager =>
    if s.holdsManager then
      ({ s with holdsManager := false } : State).push (ending call (.flag true))
    else s.reply call (.flag false)
  | .operate operation tag followUp => s.operate call self operation tag followUp
  | .shutDown =>
    s.withMount call fun _ => s.push [.takeDown, .leaveMount, .answer call .none]
  | .file id =>
    s.withMount call fun m =>
      match m.files.find? id with
      | none => s.reply call (.refused .notFound)
      | some file => s.reply call (.file file)
  | .info => s.withMount call fun m => s.reply call (.info m.settings.info m.timeout)
  | .shareMount =>
    s.withMount call fun _ =>
      (s.modifyMount fun m => { m with holders := m.holders + 1 }).reply call .none
  | .releaseMount =>
    match s.heldMount? with
    | none => s.reply call (.flag false)
    | some _ =>
      (s.modifyMount fun m => { m with holders := m.holders - 1 }).push
        [.leaveMount, .answer call (.flag true)]
  | .keepManager =>
    s.withMount call fun _ => ({ s with holdsManager := true } : State).reply call .none
  | .instruct deliverError cancelError onDeliver onCancel =>
    (s.modifyDirect ({ · with deliverError, cancelError, onDeliver, onCancel })).reply call .none
  | .send message =>
    let (s, word) := s.send message
    s.reply call (.word word)
  | .receive | .stopListening | .hangUp | .pump | .discardDriver =>
    match s.channel? with
    | none => s.reply call .none
    | some link => s.serveChannel call link
  | .advance millis => s.push [.elapse (s.clock + millis), .answer call .none]

/-- Answers a call that created a request, and fills the next slot. -/
def grant (s : State) (call : Call) (request : RequestKey) : State :=
  ({ s with slots := s.slots ++ [request] } : State).reply call (.granted request s.slots.length)

end FileRelay.State
