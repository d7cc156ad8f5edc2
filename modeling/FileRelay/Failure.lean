/-!
# Why an operation failed

A provider reports a failure as a code with a message, and such a report is
passed on untouched.  The library adds the failures that arise on its own side of
the connection.  Each has a fixed text.
-/

namespace FileRelay

/-- What a provider may say went wrong. -/
inductive FaultCode where
  | failed
  | inUse
  | alreadyExists
  | notFound
  | accessDenied
  | tooManyOpened
  | noMemory
  | noSpace
  | notADirectory
  | invalidOperation
  | security
  | abort
  | notAFile
  | notEmpty
  | invalidUrl
  | io
deriving DecidableEq, Repr, Inhabited

namespace FaultCode

/-- Every code. -/
def all : List FaultCode :=
  [failed, inUse, alreadyExists, notFound, accessDenied, tooManyOpened, noMemory, noSpace,
    notADirectory, invalidOperation, security, abort, notAFile, notEmpty, invalidUrl, io]

/-- The code's name on the wire: its words joined by underscores. -/
def name : FaultCode → String
  | failed => "failed"
  | inUse => "in_use"
  | alreadyExists => "exists"
  | notFound => "not_found"
  | accessDenied => "access_denied"
  | tooManyOpened => "too_many_opened"
  | noMemory => "no_memory"
  | noSpace => "no_space"
  | notADirectory => "not_a_directory"
  | invalidOperation => "invalid_operation"
  | security => "security"
  | abort => "abort"
  | notAFile => "not_a_file"
  | notEmpty => "not_empty"
  | invalidUrl => "invalid_url"
  | io => "io"

/-- The code as a reader is shown it: its words, apart. -/
def message : FaultCode → String
  | failed => "failed"
  | inUse => "in use"
  | alreadyExists => "exists"
  | notFound => "not found"
  | accessDenied => "access denied"
  | tooManyOpened => "too many opened"
  | noMemory => "no memory"
  | noSpace => "no space"
  | notADirectory => "not a directory"
  | invalidOperation => "invalid operation"
  | security => "security"
  | abort => "abort"
  | notAFile => "not a file"
  | notEmpty => "not empty"
  | invalidUrl => "invalid url"
  | io => "io"

/-- The code of a given name. -/
def ofName? (s : String) : Option FaultCode := all.find? (·.name == s)

/-- A code is known by its name. -/
@[simp] theorem ofName?_name (code : FaultCode) : ofName? code.name = some code := by
  cases code <;> rfl

end FaultCode

/-- A failure as the provider reported it. -/
structure Fault where
  code : FaultCode
  message : String
deriving DecidableEq, Repr, Inhabited

/-- The code's text, a colon, and the provider's own words. -/
def Fault.text (e : Fault) : String := e.code.message ++ ": " ++ e.message

/-- Why a caller did not get what it asked for. -/
inductive Failure where
  /-- The file or request is not known, or no longer known. -/
  | notFound
  /-- The provider failed the operation. -/
  | provider (error : Fault)
  /-- The caller gave up. -/
  | aborted
  /-- The deadline passed without a reply. -/
  | timedOut
  /-- The mount went down first. -/
  | shutdown
  /-- The mount or the open file does not allow the operation. -/
  | permissionDenied
  /-- The caller asked for something the mount does not offer. -/
  | invalidInput
  /-- The provider's reply does not fit the request. -/
  | invalidData
  /-- The provider could not be reached. -/
  | connectionAborted
deriving DecidableEq, Repr, Inhabited

/-- The text a reader is shown. -/
def Failure.message : Failure → String
  | notFound => "entity not found"
  | provider e => "provider error (" ++ e.text ++ ")"
  | aborted => "operation aborted"
  | timedOut => "time out"
  | shutdown => "file system shut down"
  | permissionDenied => "permission denied"
  | invalidInput => "invalid input"
  | invalidData => "invalid internal data"
  | connectionAborted => "connection aborted"

end FileRelay
