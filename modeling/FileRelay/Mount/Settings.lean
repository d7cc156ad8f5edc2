import FileRelay.TimeSpan

/-!
# How a file system is mounted

A mount has a description, fixed once it is mounted, and a time each request is
given.  A time of zero amount means that requests wait without end.
-/

namespace FileRelay

/-- The description of a mounted file system. -/
structure MountInfo where
  providerId : String
  fileSystemId : String
  displayName : String
  writable : Bool := false
  configurable : Bool := false
  /-- Whether a listing may be taken up again with a cursor. -/
  supportsContinuation : Bool := false
deriving DecidableEq, Repr, Inhabited

/-- The time a request is given unless the mount says otherwise: ten seconds. -/
def defaultRequestTimeout : TimeSpan := .ofSeconds 10

/-- All that is needed to mount a file system. -/
structure MountSettings where
  info : MountInfo
  requestTimeout : TimeSpan := defaultRequestTimeout
deriving DecidableEq, Repr, Inhabited

/-- The time each request is given, if it is limited. -/
def MountSettings.timeLimit (settings : MountSettings) : Option TimeSpan :=
  if settings.requestTimeout.isZero then none else some settings.requestTimeout

end FileRelay
