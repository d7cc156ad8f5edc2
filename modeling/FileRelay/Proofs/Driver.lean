import FileRelay.Proofs.Lane
import FileRelay.Proofs.Sweep

/-!
# The reply driver

The driver of a mount is a router and nothing else.  Whatever runs meanwhile, and however often it
is set to work, a run comes to the same as if somebody had delivered to the request manager each
message that was put into the channel, one after the other.  When the provider has hung up and all
that it sent has been routed, the mount is taken down before the driver ends its round; and when
the manager is gone the driver ends its round at the next message.
-/

namespace FileRelay

/-- The notice that a message was dropped, as the request that it is for is not outstanding. -/
def Incoming.dropped : Incoming → Notice
  | progress id _ => .partDropped id
  | success id _ => .replyDropped id
  | error id e => .errorDropped id (.provider e)

namespace State

variable {s₀ s t u v w x y z : State} {task : Task} {rest : List Task}
  {steps before after first : List State} {choices : List Choice} {link : ChannelLink}
  {inbox : List Incoming} {message : Incoming} {word : Word} {p : Pending} {capacity : Nat}

/-- The message that is delivered. -/
def Relay.message? : Relay → Option Incoming
  | .deliver message => some message
  | _ => none

/-- While the manager is there, and the driver, no message is lost. -/
theorem Underway.complete {lane : Lane} {lost : List Incoming} (h : Underway steps u lane lost)
    (alive : u.managerAlive) (hc : u.channel? = some link) (there : link.driver ≠ .discarded) :
    queued steps = routed steps ++ link.inbox := by
  obtain rfl := Option.some.inj (h.there.symm.trans (lane?_of_channel hc))
  rcases h.kept with rfl | gone | ⟨discarded, -⟩
  · exact h.order
  · rw [alive] at gone
    cases gone
  · exact (there discarded).elim

end State

end FileRelay
