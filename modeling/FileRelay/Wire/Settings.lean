import FileRelay.Mount.Settings
import FileRelay.TimeSpan.Text
import FileRelay.Wire.Json

/-!
# Mount settings on the wire

The settings of a mount are one flat object: the fields of the description, and the
time requests are given as text.
-/

namespace FileRelay

/-- A span is written as its text. -/
def TimeSpan.toJson (span : TimeSpan) : Json := .text span.text

/-- Reads a span. -/
def TimeSpan.ofJson? (j : Json) : Option TimeSpan := j.text?.bind TimeSpan.ofText?

namespace MountInfo

/-- The fields of a description. -/
def fields (info : MountInfo) : Fields :=
  [("provider_id", .text info.providerId), ("file_system_id", .text info.fileSystemId),
    ("display_name", .text info.displayName), ("writable", .flag info.writable),
    ("configurable", .flag info.configurable),
    ("supports_continuation", .flag info.supportsContinuation)]

/-- The names of those fields. -/
def fieldNames : List String :=
  ["provider_id", "file_system_id", "display_name", "writable", "configurable",
    "supports_continuation"]

/-- Reads the fields of a description. -/
def ofFields? (fields : Fields) : Option MountInfo := do
  return {
    providerId := ← fields.required "provider_id" Json.text?
    fileSystemId := ← fields.required "file_system_id" Json.text?
    displayName := ← fields.required "display_name" Json.text?
    writable := ← fields.orElse "writable" false Json.flag?
    configurable := ← fields.orElse "configurable" false Json.flag?
    supportsContinuation := ← fields.orElse "supports_continuation" false Json.flag? }

/-- A description as it is written. -/
def toJson (info : MountInfo) : Json := .object info.fields

/-- Reads a description. -/
def ofJson? (j : Json) : Option MountInfo := (j.record? fieldNames).bind ofFields?

end MountInfo

namespace MountSettings

/-- Reads settings from their fields. -/
def ofFields? (fields : Fields) : Option MountSettings := do
  return {
    info := ← MountInfo.ofFields? fields
    requestTimeout :=
      ← fields.orElse "request_timeout" defaultRequestTimeout TimeSpan.ofJson? }

/-- Settings as they are written. -/
def toJson (settings : MountSettings) : Json :=
  .object (settings.info.fields ++ [("request_timeout", settings.requestTimeout.toJson)])

/-- Reads settings, which are given as an object. -/
def ofJson? : Json → Option MountSettings
  | .object fields => ofFields? fields
  | _ => none

end MountSettings

end FileRelay
