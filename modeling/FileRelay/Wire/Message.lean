import FileRelay.Provider.Message
import FileRelay.Wire.Provider

/-!
# Messages on the wire

A message is an object with a single member: its name, holding the object of its
fields.
-/

namespace FileRelay

/-- A code is written as its name. -/
def FaultCode.toJson (code : FaultCode) : Json := .text code.name

/-- Reads a code. -/
def FaultCode.ofJson? (j : Json) : Option FaultCode :=
  j.choice?.bind FaultCode.ofName?

/-- A provider's error as it is written. -/
def Fault.toJson (e : Fault) : Json :=
  .object [("code", e.code.toJson), ("message", .text e.message)]

/-- Reads a provider's error. -/
def Fault.ofJson? (j : Json) : Option Fault := do
  let fields ← j.record? ["code", "message"]
  return {
    code := ← fields.required "code" FaultCode.ofJson?
    message := ← fields.required "message" Json.text? }

/-- The object that a message consists of. -/
def Json.message (name : String) (fields : Fields) : Json := .object [(name, .object fields)]

/-- The name and the fields of a message. -/
def Json.message? (j : Json) : Option (String × Fields) :=
  match j.variant? with
  | some (name, .object fields) => some (name, fields)
  | _ => none

namespace Outgoing

/-- A message to the provider as it is written. -/
def toJson : Outgoing → Json
  | operation id request =>
    .message "Operation" [("request_id", id.toJson), ("request", request.toJson)]
  | cancel id => .message "Cancel" [("request_id", id.toJson)]

/-- Reads a message to the provider. -/
def ofJson? (j : Json) : Option Outgoing := do
  let (name, fields) ← j.message?
  let id := fields.required "request_id" RequestId.ofJson?
  match name with
  | "Operation" =>
    return operation (← id) (← fields.required "request" Request.ofJson?)
  | "Cancel" => return cancel (← id)
  | _ => none

end Outgoing

namespace Incoming

/-- A message from the provider as it is written. -/
def toJson : Incoming → Json
  | progress id reply =>
    .message "Progress" [("request_id", id.toJson), ("response", reply.toJson)]
  | success id reply =>
    .message "Success" [("request_id", id.toJson), ("response", reply.toJson)]
  | error id e => .message "Error" [("request_id", id.toJson), ("error", e.toJson)]

/-- Reads a message from the provider. -/
def ofJson? (j : Json) : Option Incoming := do
  let (name, fields) ← j.message?
  let id := fields.required "request_id" RequestId.ofJson?
  match name with
  | "Progress" => return progress (← id) (← fields.required "response" Reply.ofJson?)
  | "Success" => return success (← id) (← fields.required "response" Reply.ofJson?)
  | "Error" => return error (← id) (← fields.required "error" Fault.ofJson?)
  | _ => none

end Incoming

end FileRelay
