import FileRelay.Engine.Completion

/-!
# Time and replies

Two things drive a run from outside besides calls: the clock, whose advance expires
timers one by one, and the reply driver, which routes the provider's messages to
their requests one by one, in the order in which they were sent.
-/

namespace FileRelay.State

/-- Expires the first timer that is due by `time`; when none is left, moves the clock
there.  While a timer expires the clock shows its deadline.  A timer ends its own
request only, never a later one under the same id. -/
def elapse (s : State) (time : Nat) : State :=
  if s.timersRun then
    match s.timers.due? time with
    | none => { s with clock := max s.clock time }
    | some timer =>
      let s : State := { s with
        timers := s.timers.stop timer.request
        clock := max s.clock timer.deadline }
      match s.ledger.findExact? timer.request with
      | none => s.push [.elapse time]
      | some p => (s.push [.leaveManager, .elapse time]).timeOut p
  else s

/-- Routes the next message from the provider.  The round ends when no message is
waiting, when there is nobody left to route to, or when the provider has hung up, in
which case the mount is taken down, once. -/
def poll (s : State) : State :=
  match s.channel? with
  | none => s
  | some link =>
    match link.inbox with
    | message :: rest =>
      let s := s.modifyChannel ({ · with inbox := rest })
      if s.managerAlive then
        ((s.note (.routing message.requestId)).push [.leaveManager, .poll]).deliver
          message.requestId message.delivery
      else (s.note .nothingToRoute).push [.polled .finished]
    | [] =>
      if link.sending then s.push [.polled .waiting]
      else
        let s := (s.note .providerHungUp).modifyChannel ({ · with toldOfHangUp := true })
        match s.mount? with
        | some m =>
          if link.toldOfHangUp then s.push [.polled .finished]
          else
            (s.note (.providerGone m.settings.info.fileSystemId)).push
              [.takeDown, .leaveMount, .polled .finished]
        | none => s.push [.polled .finished]

/-- Ends a round of routing. -/
def polled (s : State) (word : Word) : State :=
  (s.modifyChannel ({ · with driver := .idle })).reply .pump (.word word)

end FileRelay.State
