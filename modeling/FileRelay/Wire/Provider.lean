import FileRelay.Provider.Reply
import FileRelay.Wire.Json

/-!
# Requests and replies on the wire

How the requests to a provider and its replies are written as JSON, and read.  A
request and a reply are objects that name their variant in the field `type`, beside
the variant's own fields.  Optional fields are left out when there is nothing to say,
and may be null on reading.
-/

namespace FileRelay

/-- A request id is written as its number. -/
def RequestId.toJson (id : RequestId) : Json := .ofNat id.val.toNat

/-- Reads a request id. -/
def RequestId.ofJson? (j : Json) : Option RequestId := j.word32?.map RequestId.mk

/-- A handle id is written as its number. -/
def HandleId.toJson (id : HandleId) : Json := .ofNat id.val.toNat

/-- Reads a handle id. -/
def HandleId.ofJson? (j : Json) : Option HandleId := j.word32?.map HandleId.mk

/-- A cursor is written as its token. -/
def Cursor.toJson (cursor : Cursor) : Json := .text cursor.token

/-- Reads a cursor. -/
def Cursor.ofJson? (j : Json) : Option Cursor := j.text?.map Cursor.mk

/-- A mode is written as its name. -/
def OpenMode.toJson (mode : OpenMode) : Json := .text mode.name

/-- Reads a mode. -/
def OpenMode.ofJson? (j : Json) : Option OpenMode := j.choice?.bind OpenMode.ofName?

/-- Reads a mode that is a field of a tagged value. -/
def OpenMode.ofTaggedJson? (j : Json) : Option OpenMode := j.taggedChoice?.bind OpenMode.ofName?

/-- A kind is written as its name. -/
def Request.Kind.toJson (kind : Request.Kind) : Json := .text kind.name

/-- Reads a kind. -/
def Request.Kind.ofJson? (j : Json) : Option Request.Kind := j.choice?.bind Request.Kind.ofName?

namespace Request

/-- The fields of a request beside its type. -/
def fields : Request → Fields
  | unmount => []
  | getMetadata path => [("path", .text path)]
  | readDirectory path cursor =>
    ("path", .text path) :: Fields.ofOption "cursor" Cursor.toJson cursor
  | openFile path mode => [("path", .text path), ("mode", mode.toJson)]
  | closeFile openedBy => [("open_request_id", openedBy.toJson)]
  | readFile openedBy offset length =>
    [("open_request_id", openedBy.toJson), ("offset", .ofNat offset.toNat),
      ("length", .ofNat length.toNat)]
  | writeFile openedBy offset data =>
    [("open_request_id", openedBy.toJson), ("offset", .ofNat offset.toNat),
      ("data", .ofBytes data)]
  | createDirectory path exclusive recursive =>
    [("path", .text path), ("exclusive", .flag exclusive), ("recursive", .flag recursive)]
  | createFile path => [("path", .text path)]
  | deleteEntry path recursive => [("path", .text path), ("recursive", .flag recursive)]
  | copyEntry source target => [("source", .text source), ("target", .text target)]
  | moveEntry source target => [("source", .text source), ("target", .text target)]
  | truncate path length => [("path", .text path), ("length", .ofNat length.toNat)]

/-- A request as it is written. -/
def toJson (request : Request) : Json :=
  .object (("type", .text request.kind.name) :: request.fields)

/-- The names of the fields of a kind of request, in their order. -/
def fieldNames : Request.Kind → List String
  | .unmount => []
  | .getMetadata => ["path"]
  | .readDirectory => ["path", "cursor"]
  | .openFile => ["path", "mode"]
  | .closeFile => ["open_request_id"]
  | .readFile => ["open_request_id", "offset", "length"]
  | .writeFile => ["open_request_id", "offset", "data"]
  | .createDirectory => ["path", "exclusive", "recursive"]
  | .createFile => ["path"]
  | .deleteEntry => ["path", "recursive"]
  | .copyEntry => ["source", "target"]
  | .moveEntry => ["source", "target"]
  | .truncate => ["path", "length"]

/-- Reads the fields of a kind of request. -/
def ofFields? (kind : Request.Kind) (fields : Fields) : Option Request :=
  let path := fields.required "path" Json.text?
  let openedBy := fields.required "open_request_id" RequestId.ofJson?
  let flag (name : String) := fields.required name Json.flag?
  let number (name : String) := fields.required name Json.word64?
  match kind with
  | .unmount => some unmount
  | .getMetadata => return getMetadata (← path)
  | .readDirectory => return readDirectory (← path) (← fields.optional "cursor" Cursor.ofJson?)
  | .openFile => return openFile (← path) (← fields.required "mode" OpenMode.ofTaggedJson?)
  | .closeFile => return closeFile (← openedBy)
  | .readFile => return readFile (← openedBy) (← number "offset") (← number "length")
  | .writeFile =>
    return writeFile (← openedBy) (← number "offset") (← fields.required "data" Json.bytes?)
  | .createDirectory =>
    return createDirectory (← path) (← flag "exclusive") (← flag "recursive")
  | .createFile => return createFile (← path)
  | .deleteEntry => return deleteEntry (← path) (← flag "recursive")
  | .copyEntry =>
    return copyEntry (← fields.required "source" Json.text?)
      (← fields.required "target" Json.text?)
  | .moveEntry =>
    return moveEntry (← fields.required "source" Json.text?)
      (← fields.required "target" Json.text?)
  | .truncate => return truncate (← path) (← number "length")

/-- Reads a request. -/
def ofJson? (j : Json) : Option Request := do
  let (name, contents) ← j.tagged? "type"
  let kind ← Request.Kind.ofName? name
  ofFields? kind (← contents.record? (fieldNames kind))

end Request

/-- A point in time is written as its seconds and nanoseconds. -/
def Timestamp.toJson (t : Timestamp) : Json :=
  .object [("secs_since_epoch", .ofNat t.seconds), ("nanos_since_epoch", .ofNat t.nanos)]

/-- The names of the fields of a point in time. -/
def Timestamp.fieldNames : List String := ["secs_since_epoch", "nanos_since_epoch"]

/-- Reads a point in time, which has no other fields than these two. -/
def Timestamp.ofJson? (j : Json) : Option Timestamp := do
  let fields ← j.record? fieldNames
  if fields.all fun field => fieldNames.contains field.1 then
    Timestamp.ofParts? (← fields.required "secs_since_epoch" Json.word64?)
      (← fields.required "nanos_since_epoch" Json.word32?)
  else none

namespace EntryInfo

/-- The fields of a description. -/
def fields (entry : EntryInfo) : Fields :=
  [("name", .text entry.name), ("is_directory", .flag entry.isDirectory),
    ("size", .ofNat entry.size.toNat), ("modification_time", entry.modified.toJson)] ++
    Fields.ofOption "mime_type" Json.text entry.mimeType

/-- The names of those fields. -/
def fieldNames : List String :=
  ["name", "is_directory", "size", "modification_time", "mime_type"]

/-- Reads the fields of a description. -/
def ofFields? (fields : Fields) : Option EntryInfo := do
  return {
    name := ← fields.required "name" Json.text?
    isDirectory := ← fields.required "is_directory" Json.flag?
    size := ← fields.required "size" Json.word64?
    modified := ← fields.required "modification_time" Timestamp.ofJson?
    mimeType := ← fields.optional "mime_type" Json.text? }

/-- A description as it is written. -/
def toJson (entry : EntryInfo) : Json := .object entry.fields

/-- Reads a description. -/
def ofJson? (j : Json) : Option EntryInfo := (j.record? fieldNames).bind ofFields?

end EntryInfo

namespace ListedEntry

/-- A line of a listing as it is written. -/
def toJson (entry : ListedEntry) : Json :=
  .object [("name", .text entry.name), ("is_directory", .flag entry.isDirectory)]

/-- Reads a line of a listing. -/
def ofJson? (j : Json) : Option ListedEntry := do
  let fields ← j.record? ["name", "is_directory"]
  return {
    name := ← fields.required "name" Json.text?
    isDirectory := ← fields.required "is_directory" Json.flag? }

end ListedEntry

namespace ListingPage

/-- The fields of a page. -/
def fields (page : ListingPage) : Fields :=
  ("entries", .ofList ListedEntry.toJson page.entries) ::
    Fields.ofOption "cursor" Cursor.toJson page.cursor

/-- The names of those fields. -/
def fieldNames : List String := ["entries", "cursor"]

/-- Reads the fields of a page. -/
def ofFields? (fields : Fields) : Option ListingPage := do
  return {
    entries := ← fields.required "entries" (Json.array? ListedEntry.ofJson?)
    cursor := ← fields.optional "cursor" Cursor.ofJson? }

/-- A page as it is written. -/
def toJson (page : ListingPage) : Json := .object page.fields

/-- Reads a page. -/
def ofJson? (j : Json) : Option ListingPage := (j.record? fieldNames).bind ofFields?

end ListingPage

namespace Reply

/-- A reply as it is written. -/
def toJson : Reply → Json
  | nothing => .object [("type", .text "none")]
  | metadata entry => .object (("type", .text "metadata") :: entry.fields)
  | listing page => .object (("type", .text "entries") :: page.fields)
  | data bytes => .object [("type", .text "data"), ("data", .ofBytes bytes)]

/-- Reads a reply. -/
def ofJson? (j : Json) : Option Reply := do
  let (name, contents) ← j.tagged? "type"
  match name with
  | "none" =>
    let _ ← contents.record? []
    return nothing
  | "metadata" => return metadata (← EntryInfo.ofJson? contents)
  | "entries" => return listing (← ListingPage.ofJson? contents)
  | "data" =>
    let fields ← contents.record? ["data"]
    return data (← fields.required "data" Json.bytes?)
  | _ => none

end Reply

end FileRelay
