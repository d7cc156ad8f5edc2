import FileRelay.Engine.Call

/-!
# Mounts and their links

A mount reaches its provider over a link: directly, or over a pair of channels.  A
provider in direct reach is told what to do when it is given a request or a
cancellation; one at the other end of channels takes and sends messages when it
likes, and its replies are routed by a driver.
-/

namespace FileRelay

/-- A provider within direct reach. -/
structure DirectLink where
  /-- Whether it listens to cancellations. -/
  hearsCancel : Bool := true
  /-- What it answers to requests, if not simply yes. -/
  deliverError : Option Failure := none
  /-- What it answers to cancellations, if not simply yes. -/
  cancelError : Option Failure := none
  /-- What it does at the next request. -/
  onDeliver : List Call := []
  /-- What it does at the next cancellation. -/
  onCancel : List Call := []
deriving Inhabited

/-- The driver that routes replies from the channel. -/
inductive Driver where
  | idle
  | polling
  | discarded
deriving DecidableEq, Repr, Inhabited

/-- A provider at the other end of two channels: one without bound for requests, and
one of limited capacity for replies. -/
structure ChannelLink where
  /-- The messages to the provider that it has not taken yet. -/
  outbox : List Outgoing := []
  listening : Bool := true
  /-- The messages from the provider that were not routed yet. -/
  inbox : List Incoming := []
  capacity : Nat
  sending : Bool := true
  driver : Driver := .idle
  /-- Whether the mount has been told that the provider hung up. -/
  toldOfHangUp : Bool := false
deriving Repr, Inhabited

/-- How a mount reaches its provider. -/
inductive Link where
  | direct (link : DirectLink)
  | channel (link : ChannelLink)
deriving Inhabited

/-- A mounted file system. -/
structure Mount where
  settings : MountSettings
  files : OpenFiles := {}
  mounted : Bool := true
  /-- How many times the caller holds it. -/
  holders : Nat := 1
  link : Link
deriving Inhabited

/-- The milliseconds each request of the mount is given, if limited. -/
def Mount.timeout (mount : Mount) : Option Nat :=
  mount.settings.timeLimit.map TimeSpan.length

end FileRelay
