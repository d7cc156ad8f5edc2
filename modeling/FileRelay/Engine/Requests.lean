import FileRelay.Engine.State

/-!
# The life of a request

A request is registered, may take parts of its reply, and is finished once: by its
reply, by being aborted, by its deadline, or by a shutdown.  Finishing begins by
taking it out of the ledger and releasing its id; then its timer is stopped, its
callback invoked, and only then are the observers told.
-/

namespace FileRelay.State

/-- Arms the timer of a request, if timers run at all. -/
def arm (s : State) (request : RequestKey) (deadline : Nat) : State :=
  if s.timersRun then { s with timers := s.timers.arm request deadline }
  else s.note (.timersMissing request.id)

/-- Registers a request under a fresh id and arms its timer; there is none if every
id is in use. -/
def register? (s : State) (kind : Request.Kind) (timeout : Option Nat) (accepting : Bool)
    (owner : Owner) : Option (State × RequestKey) :=
  match s.pool.next? with
  | none => none
  | some (n, pool) =>
    let p : Pending :=
      { id := ⟨n⟩, serial := s.ledger.nextSerial, kind, timeout,
        deadline := timeout.bind (deadline? s.horizon s.clock), accepting, owner }
    let s : State := { s with pool, ledger := s.ledger.insert p }
    let s := s.note (.requestCreated p.id kind)
    match p.deadline with
    | some deadline => some (s.arm p.key deadline, p.key)
    | none => some (if timeout.isSome then s.note (.timeoutTooLong p.id) else s, p.key)

/-- Takes a request out of the ledger and releases its id. -/
def pull (s : State) (p : Pending) : State :=
  { s with ledger := s.ledger.erase p.id, pool := s.pool.release p.id.val }

/-- Takes a request out of the ledger and sets out to finish it. -/
def finishNow (s : State) (p : Pending) (ending : Ending) : State :=
  (s.pull p).push [.finish p ending]

/-- Takes all requests out of the ledger and sets out to finish them, oldest first;
all their ids are released before the first callback is invoked. -/
def drain (s : State) (after : List Task) : State :=
  let pending : List Pending := s.ledger.entries
  let s : State := { s with
    ledger := { s.ledger with entries := [] }
    pool := s.pool.releaseAll (pending.map (·.id.val)) }
  let s := if pending.isEmpty then s else s.note (.shuttingDown pending.length)
  s.push (pending.map (fun p => .finish p .shutDown) ++ after)

/-- Records that the provider accepted the request of an id. -/
def markDelivered (s : State) (id : RequestId) : State :=
  match s.ledger.find? id with
  | none => s
  | some p =>
    let s : State := { s with ledger := s.ledger.modify p.key ({ · with stage := .delivered }) }
    s.push (s.tells p.key .delivered)

/-- Accepts a part of the reply to a request.  The time the request is given starts
over, as far as the clock can hold the new deadline, and until the part has been
passed on no other is taken. -/
def takePart (s : State) (p : Pending) (reply : Reply) : State :=
  let deadline := p.timeout.bind (deadline? s.horizon s.clock)
  let s : State := { s with
    ledger := s.ledger.modify p.key fun p =>
      { p with deadline := deadline <|> p.deadline, accepting := false } }
  let s :=
    match deadline with
    | some deadline => s.arm p.key deadline
    | none => s
  s.push (s.tells p.key .progress ++ [.pass p reply])

/-- Delivers to the request of an id.  Without such a request nothing happens beyond
a notice. -/
def deliver (s : State) (id : RequestId) (delivery : Delivery) : State :=
  match s.ledger.find? id, delivery with
  | none, .part _ => s.note (.partDropped id)
  | none, .success _ => s.note (.replyDropped id)
  | none, .error failure => s.note (.errorDropped id failure)
  | some p, .part reply => s.takePart p reply
  | some p, .success reply => s.finishNow p (.completed reply)
  | some p, .error failure => s.finishNow p (.rejected failure)

/-- Fails a request whose time is over. -/
def timeOut (s : State) (p : Pending) : State :=
  (s.note (.requestTimedOut p.id p.kind)).finishNow p .timedOut

/-- Stops the timer of a finished request, runs the script left for this moment, and
then has the callback invoked and the observers told. -/
def finish (s : State) (p : Pending) (ending : Ending) : State :=
  let s : State := { s with timers := s.timers.stop p.key }
  let s := s.note (.requestFinished p.id p.kind ending.outcome)
  let steps := s.finishScript
  ({ s with finishScript := [] } : State).push
    (Task.script steps p.id ++
      [.complete p ending, .announce p.key (.finished p.kind ending.outcome)])

/-- Passes on a part of a reply.  The part is lost if the request was busy with
another one, or takes no parts at all, when this one was accepted. -/
def pass (s : State) (p : Pending) (reply : Reply) : State :=
  if p.accepting then
    let s := s.note (.partTaken p.id)
    match p.owner with
    | .client tag _ _ onPart =>
      (s.emit (.part p.key tag reply)).push (Task.script onPart p.id ++ [.resume p.key])
    | .operation .. =>
      { s with ledger := s.ledger.modify p.key fun p =>
        match p.owner with
        | .client .. => { p with accepting := true }
        | .operation expects tag followUp =>
          { p with accepting := true, owner := .operation (expects.collect reply) tag followUp } }
  else s.note (.partRefused p.id)

/-- Lets a request take parts again, if it is still outstanding. -/
def resume (s : State) (request : RequestKey) : State :=
  { s with ledger := s.ledger.modify request ({ · with accepting := true }) }

end FileRelay.State
