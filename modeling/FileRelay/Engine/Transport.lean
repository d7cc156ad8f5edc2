import FileRelay.Engine.Requests

/-!
# The link to the provider

Requests and cancellations go to the provider's end of the link, which may act at
once and may refuse.  Over a channel they are queued, and refused only once the
provider has stopped listening.  What the provider's end said is acted upon after all
that it did: a request it took is marked as delivered, one it refused is failed.
Either is done by id alone.
-/

namespace FileRelay.State

/-- Hands a request to the provider's end. -/
def handOver (s : State) (request : RequestKey) (content : Request) : State :=
  match s.mount with
  | none => s
  | some m =>
    match m.link with
    | .direct link =>
      ((s.emit (.handedOver request content true)).modifyDirect ({ · with onDeliver := [] })).push
        (Task.script link.onDeliver request.id)
    | .channel _ =>
      (s.emit (.handedOver request content false)).modifyChannel fun link =>
        if link.listening then
          { link with outbox := link.outbox ++ [.operation request.id content] }
        else link

/-- What the provider's end says to a request just handed over: no failure means that
it was taken. -/
def deliverError? (s : State) : Option Failure :=
  match s.mount with
  | none => none
  | some m =>
    match m.link with
    | .direct link => link.deliverError
    | .channel link => if link.listening then none else some .connectionAborted

/-- Acts on what the provider's end said to a request. -/
def verdict (s : State) (request : RequestKey) : State :=
  match s.deliverError? with
  | none => s.markDelivered request.id
  | some failure =>
    (s.note (.notHandedOver request.id failure)).deliver request.id (.error failure)

/-- Tells the provider's end that nobody waits for a request any more. -/
def cancel (s : State) (request : RequestKey) : State :=
  match s.mount with
  | none => s
  | some m =>
    match m.link with
    | .direct link =>
      if link.hearsCancel then
        ((s.emit (.cancelled request true)).modifyDirect ({ · with onCancel := [] })).push
          (Task.script link.onCancel request.id ++ [.cancelVerdict request])
      else s.emit (.cancelled request false)
    | .channel _ =>
      ((s.emit (.cancelled request false)).modifyChannel fun link =>
        if link.listening then { link with outbox := link.outbox ++ [.cancel request.id] }
        else link).push [.cancelVerdict request]

/-- What the provider's end says to a cancellation. -/
def cancelError? (s : State) : Option Failure :=
  match s.mount with
  | none => none
  | some m =>
    match m.link with
    | .direct link => link.cancelError
    | .channel link => if link.listening then none else some .connectionAborted

/-- Acts on what the provider's end said to a cancellation: a refusal is logged. -/
def cancelVerdict (s : State) (request : RequestKey) : State :=
  match s.cancelError? with
  | none => s
  | some failure => s.note (.cancelNotTold request.id failure)

/-- Tells one observer of a moment.  A watcher is always told; its script runs as long
as it has turns left, and a turn is used up before the script begins. -/
def tell (s : State) (observer : Nat) (request : RequestKey) (moment : Moment) : State :=
  match s.observers[observer]?, moment with
  | none, _ => s
  | some .canceller, .finished _ outcome =>
    if outcome.abandoned then s.cancel request else s
  | some .canceller, _ => s
  | some (.watcher name hooks), moment =>
    let (steps, rest) := hooks.turn moment
    let s := s.emit (.observed name request moment)
    ({ s with observers := s.observers.set observer (.watcher name rest) } : State).push
      (Task.script steps request.id)

end FileRelay.State
