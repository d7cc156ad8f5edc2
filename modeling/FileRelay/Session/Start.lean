import FileRelay.Engine.Step

/-!
# Starting a run

A run starts either with a request manager that the caller holds, or with a mounted
file system.  How far its clock goes is up to the platform.
-/

namespace FileRelay

/-- How far a clock goes that keeps signed 64-bit seconds, counted from a moment that
lies an hour or more before the start. -/
def clockHorizon : Nat := (Nat.pow 2 63 - 3600) * 1000

namespace State

/-- A run that starts with a request manager.  With private ids the manager has a pool
of its own, and the caller one that has nothing to do with it. -/
def ofManager (privateIds timersRun : Bool) (horizon : Nat := clockHorizon) : State where
  pool := .startingAt 1
  callerPool := if privateIds then some (.startingAt 1) else none
  horizon := horizon
  timersRun := timersRun
  holdsManager := true

/-- A run that starts with mounting a file system.  The mount's id pool is its own,
with the counter at `firstId`. -/
def ofMount (settings : MountSettings) (link : Link) (timersRun : Bool)
    (firstId : UInt32 := 1) (horizon : Nat := clockHorizon) : State :=
  let s : State := {
    pool := .startingAt firstId
    callerPool := some (.startingAt 1)
    horizon := horizon
    timersRun := timersRun
    observers := [.canceller]
    mount := some { settings, link } }
  s.note (.mounted settings.info.providerId settings.info.fileSystemId settings.info.writable)

end State

end FileRelay
