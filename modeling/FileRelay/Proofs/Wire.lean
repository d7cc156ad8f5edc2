import FileRelay.Wire.Message

/-!
# What is written on the wire is read back

Every message between a mount and its provider is written as a JSON value, and the
reader of messages gives back exactly the message that was written (`messages_faithful`).
The reader takes more than the writer writes: records given as arrays, missing and null
optional fields, bytes given as text, nanoseconds that hold whole seconds.  So a value
that is read need not be the one that is written for it.  But writing what was read gives
a canonical form, and that form is read and written again without any change.

The proofs follow the layers of the format.  First the numbers and the lists, then the
fields of a record by their names, then each record, and last the values that choose
among several by a tag.
-/

namespace FileRelay

/-- Values of a type are written so that nothing about them is lost. -/
structure Faithful (write : α → Json) (read? : Json → Option α) : Prop where
  /-- What was written is read back. -/
  readBack : ∀ a, read? (write a) = some a
  /-- What was read, in whatever form, is written in a form that reading and writing leave
  as it is. -/
  canonical : ∀ j a, read? j = some a → (read? (write a)).map write = some (write a)
  /-- Different values are written differently. -/
  apart : ∀ a b, write a = write b → a = b

/-- A format is faithful if its reader takes back what its writer writes. -/
theorem Faithful.of_readBack {write : α → Json} {read? : Json → Option α}
    (h : ∀ a, read? (write a) = some a) : Faithful write read? where
  readBack := h
  canonical := fun _ a _ => by rw [h a, Option.map_some]
  apart := fun a b hab => by
    have hb := h b
    rw [← hab, h a] at hb
    exact Option.some.inj hb

/-! ## Numbers, lists and bytes -/

namespace Json

@[simp] theorem natBelow?_ofNat {bound n : Nat} (h : n < bound) :
    (ofNat n).natBelow? bound = some n := if_pos h

@[simp] theorem word32?_ofNat (n : UInt32) : (ofNat n.toNat).word32? = some n := by
  simp [word32?, n.toNat_lt_size]

@[simp] theorem word64?_ofNat (n : UInt64) : (ofNat n.toNat).word64? = some n := by
  simp [word64?, n.toNat_lt_size]

@[simp] theorem byte?_ofNat (n : UInt8) : (ofNat n.toNat).byte? = some n := by
  simp [byte?, n.toNat_lt_size]

@[simp] theorem text?_text (s : String) : (text s).text? = some s := rfl

@[simp] theorem flag?_flag (b : Bool) : (flag b).flag? = some b := rfl

/-- A list is read back item by item. -/
theorem each?_map {write : α → Json} {read? : Json → Option α}
    (h : ∀ a, read? (write a) = some a) (as : List α) :
    each? read? (as.map write) = some as := by
  induction as with
  | nil => rfl
  | cons a as ih => simp [each?, h a, ih]

theorem array?_ofList {write : α → Json} {read? : Json → Option α}
    (h : ∀ a, read? (write a) = some a) (as : List α) :
    (ofList write as).array? read? = some as := each?_map h as

@[simp] theorem bytes?_ofBytes (bytes : List UInt8) : (ofBytes bytes).bytes? = some bytes :=
  each?_map byte?_ofNat bytes

@[simp] theorem record?_object (names : List String) (members : Fields) :
    (object members).record? names = some members := rfl

/-- A value tagged by its first member is known by the tag, and is about the whole object. -/
@[simp] theorem tagged?_object (tag name : String) (members : Fields) :
    (object ((tag, text name) :: members)).tagged? tag =
      some (name, object ((tag, text name) :: members)) := by
  simp [tagged?]

@[simp] theorem message?_message (name : String) (fields : Fields) :
    (message name fields).message? = some (name, fields) := rfl

/-- Messages with different names are written differently. -/
theorem name_eq_of_message {name name' : String} {fields fields' : Fields}
    (h : message name fields = message name' fields') : name = name' := by
  simp only [message, object.injEq, List.cons.injEq, Prod.mk.injEq] at h
  exact h.1.1

end Json

/-! ## Fields by name -/

namespace Fields

variable {fields : Fields} {name other : String} {j : Json} {read : Json → Option α}

@[simp] theorem required_cons : required ((name, j) :: fields) name read = read j := by
  simp [required]

/-- Fields of other names are passed over. -/
@[simp] theorem required_cons_ne (h : name ≠ other) :
    required ((other, j) :: fields) name read = required fields name read := by
  simp [required, List.lookup_cons, beq_false_of_ne h]

@[simp] theorem optional_cons_ne (h : name ≠ other) :
    optional ((other, j) :: fields) name read = optional fields name read := by
  simp [optional, List.lookup_cons, beq_false_of_ne h]

/-- A field that was written only if there was something to write is read as what there
was, provided that nothing is ever written as null. -/
theorem optional_ofOption {write : α → Json} (h : ∀ a, read (write a) = some a)
    (hnull : ∀ a, write a ≠ .null) (a : Option α) :
    optional (ofOption name write a) name read = some a := by
  cases a with
  | none => rfl
  | some a =>
    have hlookup : (ofOption name write (some a)).lookup name = some (write a) := by
      simp [ofOption]
    unfold optional
    rw [hlookup]
    split
    · contradiction
    · next hj => exact absurd (Option.some.inj hj) (hnull a)
    · next hj => rw [← Option.some.inj hj, h a, Option.map_some]

end Fields

/-! ## Names, tokens and ids -/

@[simp] theorem RequestId.ofJson?_toJson (id : RequestId) : ofJson? id.toJson = some id := by
  simp [ofJson?, toJson]

@[simp] theorem Cursor.ofJson?_toJson (cursor : Cursor) : ofJson? cursor.toJson = some cursor :=
  rfl

/-- A cursor that was written, or none. -/
@[simp] theorem Cursor.optional_ofOption (cursor : Option Cursor) (name : String) :
    Fields.optional (Fields.ofOption name Cursor.toJson cursor) name Cursor.ofJson? =
      some cursor :=
  Fields.optional_ofOption Cursor.ofJson?_toJson (fun _ => Json.noConfusion) cursor

/-- A mode is written by its name alone, which is read as a tagged choice as well. -/
@[simp] theorem OpenMode.ofTaggedJson?_toJson (mode : OpenMode) :
    ofTaggedJson? mode.toJson = some mode := ofName?_name mode

@[simp] theorem FaultCode.ofJson?_toJson (code : FaultCode) : ofJson? code.toJson = some code :=
  ofName?_name code

/-! ## Records -/

/-- The numbers of a point in time fit the words they are read as. -/
theorem Timestamp.fits (t : Timestamp) : t.seconds < UInt64.size ∧ t.nanos < UInt32.size :=
  ⟨Nat.lt_trans t.seconds_lt (by decide), Nat.lt_trans t.nanos_lt (by decide)⟩

/-- A time's nanoseconds are below a second, so that nothing is carried over. -/
theorem Timestamp.ofParts?_self (t : Timestamp) :
    ofParts? (UInt64.ofNat t.seconds) (UInt32.ofNat t.nanos) = some t := by
  have hs : (UInt64.ofNat t.seconds).toNat = t.seconds := UInt64.toNat_ofNat_of_lt' t.fits.1
  have hn : (UInt32.ofNat t.nanos).toNat = t.nanos := UInt32.toNat_ofNat_of_lt' t.fits.2
  have hcarry : t.nanos / Nat.pow 10 9 = 0 := Nat.div_eq_of_lt t.nanos_lt
  have hrest : t.nanos % Nat.pow 10 9 = t.nanos := Nat.mod_eq_of_lt t.nanos_lt
  have hlt : t.seconds < Nat.pow 2 63 := t.seconds_lt
  simp only [ofParts?, hs, hn, hcarry, hrest, Nat.add_zero, hlt, dite_true]

@[simp] theorem Timestamp.ofJson?_toJson (t : Timestamp) : ofJson? t.toJson = some t := by
  have hs : (Json.ofNat t.seconds).word64? = some (UInt64.ofNat t.seconds) := by
    rw [Json.word64?, Json.natBelow?_ofNat t.fits.1, Option.map_some]
  have hn : (Json.ofNat t.nanos).word32? = some (UInt32.ofNat t.nanos) := by
    rw [Json.word32?, Json.natBelow?_ofNat t.fits.2, Option.map_some]
  simp [ofJson?, toJson, fieldNames, hs, hn, ofParts?_self]

/-- A description is read back from its fields, behind the field that holds a tag. -/
theorem EntryInfo.ofFields?_fields (entry : EntryInfo) (tag : Json) :
    ofFields? (("type", tag) :: entry.fields) = some entry := by
  have hmime : Fields.optional (Fields.ofOption "mime_type" Json.text entry.mimeType)
      "mime_type" Json.text? = some entry.mimeType :=
    Fields.optional_ofOption Json.text?_text (fun _ => Json.noConfusion) entry.mimeType
  simp [ofFields?, fields, hmime]

@[simp] theorem ListedEntry.ofJson?_toJson (entry : ListedEntry) :
    ofJson? entry.toJson = some entry := by
  simp [ofJson?, toJson]

/-- A page is read back from its fields, behind the field that holds a tag. -/
theorem ListingPage.ofFields?_fields (page : ListingPage) (tag : Json) :
    ofFields? (("type", tag) :: page.fields) = some page := by
  have hentries : (Json.ofList ListedEntry.toJson page.entries).array? ListedEntry.ofJson? =
      some page.entries := Json.array?_ofList ListedEntry.ofJson?_toJson page.entries
  simp [ofFields?, fields, hentries]

@[simp] theorem Fault.ofJson?_toJson (e : Fault) : ofJson? e.toJson = some e := by
  simp [ofJson?, toJson]

/-! ## Requests and replies -/

/-- A request is read back from its fields, behind the field that holds its type. -/
theorem Request.ofFields?_fields (request : Request) (tag : Json) :
    ofFields? request.kind (("type", tag) :: request.fields) = some request := by
  cases request <;> simp [ofFields?, kind, fields]

@[simp] theorem Request.ofJson?_toJson (request : Request) :
    ofJson? request.toJson = some request := by
  simp [ofJson?, toJson, ofFields?_fields]

@[simp] theorem Reply.ofJson?_toJson (reply : Reply) : ofJson? reply.toJson = some reply := by
  cases reply with
  | nothing => simp [ofJson?, toJson]
  | metadata entry => simp [ofJson?, toJson, EntryInfo.ofJson?, EntryInfo.ofFields?_fields]
  | listing page => simp [ofJson?, toJson, ListingPage.ofJson?, ListingPage.ofFields?_fields]
  | data bytes => simp [ofJson?, toJson]

/-! ## Messages -/

@[simp] theorem Outgoing.ofJson?_toJson (m : Outgoing) : ofJson? m.toJson = some m := by
  cases m <;> simp [ofJson?, toJson]

@[simp] theorem Incoming.ofJson?_toJson (m : Incoming) : ofJson? m.toJson = some m := by
  cases m <;> simp [ofJson?, toJson]

/-- The messages between a mount and its provider are written faithfully, whatever they
hold, and no message of one direction is written like one of the other. -/
theorem messages_faithful :
    Faithful Outgoing.toJson Outgoing.ofJson? ∧ Faithful Incoming.toJson Incoming.ofJson? ∧
      ∀ (o : Outgoing) (i : Incoming), o.toJson ≠ i.toJson := by
  refine ⟨.of_readBack Outgoing.ofJson?_toJson, .of_readBack Incoming.ofJson?_toJson, ?_⟩
  intro o i h
  cases o <;> cases i <;> exact absurd (Json.name_eq_of_message h) (by decide)

end FileRelay
