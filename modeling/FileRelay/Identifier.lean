/-!
# Identifiers

A mount names two kinds of things by 32-bit numbers drawn from one id space: the
requests that are outstanding at the provider, and the files that are open.  The
two are kept apart by type.  A request is known to the provider by its id alone,
but ids come round again, so inside the library a request is named by its *key*:
its id together with its serial number, which never repeats.
-/

namespace FileRelay

/-- Names one outstanding request of a mount. -/
structure RequestId where
  val : UInt32
deriving DecidableEq, Repr, Inhabited

/-- Names one open file of a mount. -/
structure HandleId where
  val : UInt32
deriving DecidableEq, Repr, Inhabited

/-- A request once and for all: its id, and the serial number that tells it from
any later request under the same id. -/
structure RequestKey where
  id : RequestId
  serial : Nat
deriving DecidableEq, Repr, Inhabited

end FileRelay
