import FileRelay.Wire.Message
import FileRelay.Wire.Settings
import Mathlib.Data.List.Nodup
import Mathlib.Logic.Relation

/-!
# Readers look at names, not at places

A record is read by the names of its fields.  So the order of an object's members is of no
account, at any depth, nor are members with names that the record does not have, and a
field that may be missing is read like its default.  The tag of a request or a reply is a
field like the others, wherever it stands, and it decides which names are known.  Only the
object that a message consists of is strict: it has a single member.

A `Shape` says what a reader knows of the objects in the values that it takes, and an
`Edit` is one change of the kinds above, at one place of a value.  A reader is `Tolerant`
if no sequence of edits, made or undone, changes what it reads or whether it reads
anything.  `readers_tolerant` says so of the reader of every object on the wire.

The proofs go by one edit.  What an edit does to a value is said once
(`Edit.cases_value`), from it follows what it does to a field looked up by its name
(`FieldEdit`), and each reader is made of such lookups.
-/

namespace FileRelay

/-! ## What may be done to a value -/

/-- What a reader knows of the objects in the values that it takes. -/
inductive Shape where
  /-- A value without a record in it. -/
  | plain
  /-- An array of values of one shape. -/
  | items (item : Shape)
  /-- A record: the names of its fields, the shapes of their values, and what a field that
  may be missing stands for. -/
  | record (names : List String) (inner : String → Shape) (default? : String → Option Json)
  /-- A record whose tag decides about its other fields. -/
  | tagged (tag : String) (variant : String → Shape)
  /-- An object with a single member, whose name decides about its contents. -/
  | message (variant : String → Shape)

namespace Shape

/-- A record with the tag as a further field, which must be there. -/
def withTag (tag : String) : Shape → Shape
  | record names inner default? =>
    record (tag :: names) inner fun name => if name = tag then none else default? name
  | _ => record [tag] (fun _ => plain) fun _ => none

/-- The shape of one value: where a tag decides, that of the variant that the value's tag
chooses.  If it chooses none, no field but the tag is known. -/
def resolve : Shape → Json → Shape
  | tagged tag variant, j =>
    ((j.tagged? tag).elim plain fun choice => variant choice.1).withTag tag
  | s, _ => s

/-- The shape of a member of an object. -/
def member : Shape → String → Shape
  | record _ inner _, name => inner name
  | message variant, name => variant name
  | _, _ => plain

/-- The shape of an item of an array. -/
def item : Shape → Nat → Shape
  | items s, _ => s
  | record names inner _, i => names[i]?.elim plain inner
  | _, _ => plain

/-- What a member that may be missing stands for. -/
def default? : Shape → String → Option Json
  | record _ _ default?, name => default? name
  | _, _ => none

/-- Whether an object may have a further member with this name, which nothing looks at. -/
def admits : Shape → String → Bool
  | record names _ _, name => !names.contains name
  | _, _ => false

end Shape

/-- No two members have the same name. -/
def Fields.Distinct (fields : Fields) : Prop := (fields.map Prod.fst).Nodup

/-- One change to a value of a shape that its reader takes no notice of. -/
inductive Edit : Shape → Json → Json → Prop
  /-- The members of an object are put in another order. -/
  | reorder {s : Shape} {members members' : Fields} (distinct : members.Distinct)
      (perm : members.Perm members') : Edit s (.object members) (.object members')
  /-- A member is added that is not a field. -/
  | add {s : Shape} {members : Fields} {name : String} {j : Json}
      (distinct : Fields.Distinct ((name, j) :: members))
      (unknown : (s.resolve (.object members)).admits name) :
      Edit s (.object members) (.object ((name, j) :: members))
  /-- A missing field is given the value that it stands for. -/
  | fill {s : Shape} {members : Fields} {name : String} {j : Json}
      (distinct : Fields.Distinct ((name, j) :: members))
      (default : (s.resolve (.object members)).default? name = some j) :
      Edit s (.object members) (.object ((name, j) :: members))
  /-- The value of a member is edited. -/
  | member {s : Shape} {before after : Fields} {name : String} {j j' : Json}
      (distinct : Fields.Distinct (before ++ (name, j) :: after))
      (inner : Edit ((s.resolve (.object (before ++ (name, j) :: after))).member name) j j') :
      Edit s (.object (before ++ (name, j) :: after)) (.object (before ++ (name, j') :: after))
  /-- An item of an array is edited. -/
  | item {s : Shape} {items : List Json} {i : Nat} {j j' : Json} (here : items[i]? = some j)
      (inner : Edit ((s.resolve (.array items)).item i) j j') :
      Edit s (.array items) (.array (items.set i j'))

/-- A reader takes no notice of one edit. -/
def Steady (s : Shape) (read? : Json → Option α) : Prop :=
  ∀ ⦃j j'⦄, Edit s j j' → read? j = read? j'

/-- A reader takes no notice of any edits, made or undone, one after another. -/
def Tolerant (s : Shape) (read? : Json → Option α) : Prop :=
  ∀ ⦃j j'⦄, Relation.EqvGen (Edit s) j j' → read? j = read? j'

theorem Steady.tolerant {s : Shape} {read? : Json → Option α} (h : Steady s read?) :
    Tolerant s read? := by
  intro j j' edits
  induction edits with
  | rel _ _ edit => exact h edit
  | refl => rfl
  | symm _ _ _ ih => exact ih.symm
  | trans _ _ _ _ _ ih ih' => exact ih.trans ih'

/-! ## What an edit does -/

namespace Fields

variable {fields fields' before after : Fields} {name : String} {j j' : Json}

theorem Distinct.tail (h : Distinct ((name, j) :: fields)) : Distinct fields :=
  (List.nodup_cons.1 h).2

theorem Distinct.of_perm (h : fields.Distinct) (perm : fields.Perm fields') :
    fields'.Distinct := (perm.map Prod.fst).nodup_iff.1 h

/-- The name of the first member is not found among the others. -/
theorem Distinct.lookup_tail (h : Distinct ((name, j) :: fields)) :
    fields.lookup name = none := by
  have absent : name ∉ fields.map Prod.fst := (List.nodup_cons.1 h).1
  rw [List.lookup_eq_none_iff]
  intro field mem
  rw [bne_iff_ne]
  rintro rfl
  exact absent (List.mem_map_of_mem mem)

/-- What is found by a name does not depend on the order. -/
theorem Distinct.lookup_eq (h : fields.Distinct) (perm : fields.Perm fields') :
    fields.lookup name = fields'.lookup name := by
  induction perm with
  | nil => rfl
  | cons field _ ih =>
    obtain ⟨other, value⟩ := field
    simp only [List.lookup_cons, ih h.tail]
  | swap field field' rest =>
    obtain ⟨⟨first, value⟩, ⟨second, value'⟩⟩ := field, field'
    have apart : second ≠ first := fun same => by simp [Distinct, same] at h
    simp only [List.lookup_cons]
    by_cases here : name = first
    · simp [here, beq_false_of_ne apart.symm]
    · simp [beq_false_of_ne here]
  | trans perm _ ih ih' => exact (ih h).trans (ih' (h.of_perm perm))

end Fields

/-- What an edit does to a field, as it is looked up by its name. -/
inductive FieldEdit (s : Shape) (name : String) : Option Json → Option Json → Prop
  | same (field : Option Json) : FieldEdit s name field field
  | edited {j j' : Json} (inner : Edit (s.member name) j j') :
      FieldEdit s name (some j) (some j')
  | filled {j : Json} (default : s.default? name = some j) : FieldEdit s name none (some j)

/-- Two records agree in all that the shape knows, up to an edit. -/
def Agree (s : Shape) (fields fields' : Fields) : Prop :=
  ∀ name, s.admits name = false → FieldEdit s name (fields.lookup name) (fields'.lookup name)

variable {s : Shape} {j j' : Json} {name : String} {items : List Json} {i : Nat}
  {members members' before after fields fields' : Fields} {names : List String}

/-- An edited member is found by its name, and the others are what they were. -/
theorem FieldEdit.of_member (inner : Edit (s.member name) j j') (other : String) :
    FieldEdit s other ((before ++ (name, j) :: after).lookup other)
      ((before ++ (name, j') :: after).lookup other) := by
  simp only [List.lookup_append, List.lookup_cons]
  cases before.lookup other with
  | some found => exact .same _
  | none =>
    by_cases here : other = name
    · subst here
      simpa using .edited inner
    · simpa [beq_false_of_ne here] using .same _

/-- Where an array lists the fields, an item is the field whose name stands in its place. -/
theorem FieldEdit.of_item (here : items[i]? = some j)
    (inner : ∀ place, names[i]? = some place → Edit (s.member place) j j') :
    FieldEdit s name ((names.zip items).lookup name)
      ((names.zip (items.set i j')).lookup name) := by
  induction names generalizing items i with
  | nil => exact .same _
  | cons first names ih =>
    cases items with
    | nil => exact .same _
    | cons item items =>
      cases i with
      | zero =>
        obtain rfl : item = j := by simpa using here
        simp only [List.set_cons_zero, List.zip_cons_cons, List.lookup_cons]
        by_cases found : name = first
        · simpa [found] using .edited (inner first rfl)
        · simpa [beq_false_of_ne found] using .same _
      | succ i =>
        simp only [List.set_cons_succ, List.zip_cons_cons, List.lookup_cons]
        by_cases found : name = first
        · simpa [found] using .same _
        · simpa [beq_false_of_ne found] using ih (by simpa using here) inner

/-- An edit is of an object, where it lets what is known be found as it was, or of one item
of an array. -/
theorem Edit.cases_value (h : Edit s j j') :
    (∃ members members', j = .object members ∧ j' = .object members' ∧
      Agree (s.resolve j) members members') ∨
    ∃ items i item item', j = .array items ∧ j' = .array (items.set i item') ∧
      items[i]? = some item ∧ Edit ((s.resolve j).item i) item item' := by
  cases h with
  | reorder distinct perm =>
    refine .inl ⟨_, _, rfl, rfl, fun name _ => ?_⟩
    rw [distinct.lookup_eq perm]
    exact .same _
  | @add _ members name value distinct unknown =>
    refine .inl ⟨_, _, rfl, rfl, fun other known => ?_⟩
    have apart : other ≠ name := by
      rintro rfl
      exact absurd (known.symm.trans unknown) (by decide)
    rw [List.lookup_cons, beq_false_of_ne apart]
    exact .same _
  | @fill _ members name value distinct default =>
    refine .inl ⟨_, _, rfl, rfl, fun other known => ?_⟩
    by_cases here : other = name
    · subst here
      rw [distinct.lookup_tail, List.lookup_cons_self]
      exact .filled default
    · rw [List.lookup_cons, beq_false_of_ne here]
      exact .same _
  | member distinct inner => exact .inl ⟨_, _, rfl, rfl, fun other _ => .of_member inner other⟩
  | item here inner => exact .inr ⟨_, _, _, _, rfl, rfl, here, inner⟩

/-- Records listed by an array agree if one item is edited as the field of its place. -/
theorem Agree.of_item (here : items[i]? = some j)
    (inner : ∀ place, names[i]? = some place → Edit (s.member place) j j') :
    Option.Rel (Agree s) ((Json.array items).record? names)
      ((Json.array (items.set i j')).record? names) := by
  by_cases short : items.length ≤ names.length
  · simp only [Json.record?, List.length_set, if_pos short]
    exact .some fun name _ => .of_item here inner
  · simp only [Json.record?, List.length_set, if_neg short]
    exact .none

/-- Two values agree as records of the shape. -/
def AgreeAs (s : Shape) (j j' : Json) : Prop :=
  ∀ ⦃names inner default?⦄, s = .record names inner default? →
    Option.Rel (Agree s) (j.record? names) (j'.record? names)

/-- An edit of a record leaves a record that agrees with it. -/
theorem Edit.agreeAs (h : Edit s j j') : AgreeAs s j j' := by
  rintro names inner default? rfl
  obtain ⟨members, members', rfl, rfl, agree⟩ | ⟨items, i, item, item', rfl, rfl, here, edit⟩ :=
    h.cases_value
  · exact .some agree
  · refine Agree.of_item here fun place found => ?_
    simpa [Shape.resolve, Shape.item, Shape.member, found] using edit

/-- Records that agree are read alike, if that is so of their fields. -/
theorem AgreeAs.bind_eq {inner : String → Shape} {default? : String → Option Json}
    {ofFields? : Fields → Option α} (h : AgreeAs (.record names inner default?) j j')
    (same : ∀ fields fields', Agree (.record names inner default?) fields fields' →
      ofFields? fields = ofFields? fields') :
    (j.record? names).bind ofFields? = (j'.record? names).bind ofFields? := by
  have rel := h rfl
  generalize j.record? names = record, j'.record? names = record' at rel
  cases rel with
  | some agree => exact same _ _ agree
  | none => rfl

/-! ## Fields -/

variable {read? : Json → Option α}

/-- A field that must be there is read as before. -/
theorem Agree.required (h : Agree s fields fields') (name : String)
    (steady : Steady (s.member name) read?) (known : s.admits name = false)
    (needed : s.default? name = none) :
    fields.required name read? = fields'.required name read? := by
  have change := h name known
  unfold Fields.required
  generalize fields.lookup name = field, fields'.lookup name = field' at change
  cases change with
  | same => rfl
  | edited inner => exact steady inner
  | filled default => simp [needed] at default

/-- A field that may be missing or null is read as before. -/
theorem Agree.optional (h : Agree s fields fields') (name : String)
    (steady : Steady (s.member name) read?) (known : s.admits name = false)
    (missing : s.default? name = some .null) :
    fields.optional name read? = fields'.optional name read? := by
  have change := h name known
  unfold Fields.optional
  generalize fields.lookup name = field, fields'.lookup name = field' at change
  cases change with
  | same => rfl
  | edited inner =>
    have read := steady inner
    -- What is edited is not null.
    obtain ⟨_, _, rfl, rfl, _⟩ | ⟨_, _, _, _, rfl, rfl, _⟩ := inner.cases_value <;>
      simp only [read]
  | filled default =>
    obtain rfl : Json.null = _ := Option.some.inj (missing.symm.trans default)
    rfl

/-- A field that has a default is read as before. -/
theorem Agree.orElse (h : Agree s fields fields') (name : String) {value : α} {j : Json}
    (steady : Steady (s.member name) read?) (known : s.admits name = false)
    (missing : s.default? name = some j) (means : read? j = some value) :
    fields.orElse name value read? = fields'.orElse name value read? := by
  have change := h name known
  unfold Fields.orElse
  generalize fields.lookup name = field, fields'.lookup name = field' at change
  cases change with
  | same => rfl
  | edited inner => exact steady inner
  | filled default =>
    obtain rfl : j = _ := Option.some.inj (missing.symm.trans default)
    exact means.symm

/-! ## Values without a record -/

/-- A reader that takes neither objects nor arrays takes no notice of edits. -/
theorem Steady.of_none (objects : ∀ members, read? (.object members) = none)
    (arrays : ∀ items, read? (.array items) = none) : Steady s read? := by
  intro j j' edit
  obtain ⟨_, _, rfl, rfl, _⟩ | ⟨_, _, _, _, rfl, rfl, _⟩ := edit.cases_value
  · simp only [objects]
  · simp only [arrays]

theorem Steady.map {f : α → β} (h : Steady s read?) : Steady s fun j => (read? j).map f :=
  fun _ _ edit => congrArg (Option.map f) (h edit)

theorem Steady.bind {f : α → Option β} (h : Steady s read?) :
    Steady s fun j => (read? j).bind f :=
  fun _ _ edit => congrArg (Option.bind · f) (h edit)

theorem steady_text? : Steady s Json.text? := .of_none (fun _ => rfl) fun _ => rfl

theorem steady_flag? : Steady s Json.flag? := .of_none (fun _ => rfl) fun _ => rfl

theorem steady_natBelow? (bound : Nat) : Steady s (Json.natBelow? bound) :=
  .of_none (fun _ => rfl) fun _ => rfl

theorem steady_word32? : Steady s Json.word32? := (steady_natBelow? _).map

theorem steady_word64? : Steady s Json.word64? := (steady_natBelow? _).map

theorem steady_byte? : Steady s Json.byte? := (steady_natBelow? _).map

theorem RequestId.steady_ofJson? : Steady s RequestId.ofJson? := steady_word32?.map

theorem Cursor.steady_ofJson? : Steady s Cursor.ofJson? := steady_text?.map

/-- The items of a list are read as before if the one that is changed is. -/
theorem Json.each?_set {read? : Json → Option α} (here : items[i]? = some j)
    (same : read? j = read? j') : each? read? (items.set i j') = each? read? items := by
  induction items generalizing i with
  | nil => rfl
  | cons item items ih =>
    cases i with
    | zero =>
      obtain rfl : item = j := by simpa using here
      simp only [List.set_cons_zero, each?, same]
    | succ i => simp only [List.set_cons_succ, each?, ih (by simpa using here)]

/-- An array of values is read as before if each of them is. -/
theorem steady_array? (h : Steady s read?) : Steady (.items s) (Json.array? read?) := by
  intro j j' edit
  obtain ⟨_, _, rfl, rfl, _⟩ | ⟨_, _, _, _, rfl, rfl, here, inner⟩ := edit.cases_value
  · rfl
  · exact (Json.each?_set here (h inner)).symm

theorem steady_bytes? : Steady .plain Json.bytes? := by
  intro j j' edit
  obtain ⟨_, _, rfl, rfl, _⟩ | ⟨_, _, _, _, rfl, rfl, here, inner⟩ := edit.cases_value
  · rfl
  · exact (Json.each?_set here (steady_byte? inner)).symm

/-! ## Objects that take no further members -/

/-- No member can be added to an object of the shape. -/
def Shape.Closed (s : Shape) : Prop := ∀ name, s.admits name = false ∧ s.default? name = none

theorem Shape.closed_plain : Closed (plain.resolve j) := fun _ => ⟨rfl, rfl⟩

theorem Shape.closed_message (variant : String → Shape) :
    Closed ((message variant).resolve j) := fun _ => ⟨rfl, rfl⟩

/-- The members of a closed object change places, or the value of one is edited. -/
theorem Edit.of_closed (closed : (s.resolve (.object members)).Closed)
    (h : Edit s (.object members) (.object members')) :
    members.Perm members' ∨ ∃ before name j j' after, members = before ++ (name, j) :: after ∧
      members' = before ++ (name, j') :: after ∧
      Edit ((s.resolve (.object members)).member name) j j' := by
  cases h with
  | reorder _ perm => exact .inl perm
  | @add _ _ name _ _ unknown => simp [(closed name).1] at unknown
  | @fill _ _ name _ _ default => simp [(closed name).2] at default
  | member _ inner => exact .inr ⟨_, _, _, _, _, rfl, rfl, inner⟩

/-- A closed object has the same names as before. -/
theorem Edit.names_perm (closed : (s.resolve (.object members)).Closed)
    (h : Edit s (.object members) (.object members')) :
    (members.map Prod.fst).Perm (members'.map Prod.fst) := by
  obtain perm | ⟨before, name, j, j', after, rfl, rfl, _⟩ := h.of_closed closed
  · exact perm.map Prod.fst
  · simp

/-- A closed object that is not the same as before has not one member, or its one member is
edited. -/
theorem Edit.single (closed : (s.resolve (.object members)).Closed)
    (h : Edit s (.object members) (.object members')) :
    members = members' ∨ (members.length ≠ 1 ∧ members'.length ≠ 1) ∨
      ∃ name j j', members = [(name, j)] ∧ members' = [(name, j')] ∧
        Edit ((s.resolve (.object members)).member name) j j' := by
  obtain perm | ⟨before, name, j, j', after, rfl, rfl, inner⟩ := h.of_closed closed
  · by_cases one : members.length = 1
    · obtain ⟨member, rfl⟩ := List.length_eq_one_iff.1 one
      exact .inl (List.singleton_perm.1 perm)
    · exact .inr (.inl ⟨one, perm.length_eq ▸ one⟩)
  · by_cases one : before = [] ∧ after = []
    · obtain ⟨rfl, rfl⟩ := one
      exact .inr (.inr ⟨name, j, j', rfl, rfl, inner⟩)
    · refine .inr (.inl ?_)
      simp only [List.length_append, List.length_cons, ← List.length_eq_zero_iff] at one ⊢
      omega

theorem Json.variant?_eq_none (h : members.length ≠ 1) : variant? (.object members) = none := by
  match members, h with
  | [], _ => rfl
  | _ :: _ :: _, _ => rfl

/-- A message is an object with a single member. -/
theorem Json.message?_eq_none (h : members.length ≠ 1) : message? (.object members) = none := by
  simp only [message?, variant?_eq_none h]

theorem Json.choice?_eq_none (h : members.length ≠ 1) : choice? (.object members) = none := by
  unfold choice?
  split <;> simp_all

theorem Json.taggedChoice?_eq_none (h : members.length ≠ 1) :
    taggedChoice? (.object members) = none := by
  unfold taggedChoice?
  split
  · simp_all
  · exact choice?_eq_none h

/-- A message that is edited keeps its name, and its contents are an edited object. -/
theorem Edit.message? {variant : String → Shape} (h : Edit (.message variant) j j') :
    j.message? = j'.message? ∨ ∃ name fields fields', j.message? = some (name, fields) ∧
      j'.message? = some (name, fields') ∧
      Edit (variant name) (.object fields) (.object fields') := by
  obtain ⟨members, members', rfl, rfl, -⟩ | ⟨_, _, _, _, rfl, rfl, -⟩ := h.cases_value
  · obtain rfl | ⟨many, many'⟩ | ⟨name, j, j', rfl, rfl, inner⟩ :=
      h.single (Shape.closed_message variant)
    · exact .inl rfl
    · exact .inl (by rw [Json.message?_eq_none many, Json.message?_eq_none many'])
    · obtain ⟨_, _, rfl, rfl, -⟩ | ⟨_, _, _, _, rfl, rfl, -⟩ := inner.cases_value
      · exact .inr ⟨name, _, _, rfl, rfl, inner⟩
      · exact .inl rfl
  · exact .inl rfl

theorem steady_choice? : Steady .plain Json.choice? := by
  intro j j' edit
  obtain ⟨members, members', rfl, rfl, -⟩ | ⟨_, _, _, _, rfl, rfl, -⟩ := edit.cases_value
  · obtain rfl | ⟨many, many'⟩ | ⟨name, j, j', rfl, rfl, inner⟩ :=
      edit.single Shape.closed_plain
    · rfl
    · rw [Json.choice?_eq_none many, Json.choice?_eq_none many']
    · obtain ⟨_, _, rfl, rfl, -⟩ | ⟨_, _, _, _, rfl, rfl, -⟩ := inner.cases_value <;> rfl
  · rfl

theorem steady_taggedChoice? : Steady .plain Json.taggedChoice? := by
  intro j j' edit
  obtain ⟨members, members', rfl, rfl, -⟩ | ⟨_, _, _, _, rfl, rfl, -⟩ := edit.cases_value
  · obtain rfl | ⟨many, many'⟩ | ⟨name, j, j', rfl, rfl, inner⟩ :=
      edit.single Shape.closed_plain
    · rfl
    · rw [Json.taggedChoice?_eq_none many, Json.taggedChoice?_eq_none many']
    · obtain ⟨contents, contents', rfl, rfl, -⟩ | ⟨_, _, _, _, rfl, rfl, -⟩ :=
        inner.cases_value
      · -- An empty object stays empty.
        have same := (inner.names_perm Shape.closed_plain).length_eq
        cases contents <;> cases contents' <;> first | rfl | simp at same
      · rfl
  · rfl

theorem OpenMode.steady_ofTaggedJson? : Steady .plain OpenMode.ofTaggedJson? :=
  steady_taggedChoice?.bind

theorem FaultCode.steady_ofJson? : Steady .plain FaultCode.ofJson? := steady_choice?.bind

/-! ## Points in time -/

/-- An array lists fields of the same names, whatever its items are. -/
theorem Json.map_fst_zip_set (names : List String) (items : List Json) (i : Nat) (j : Json) :
    (names.zip (items.set i j)).map Prod.fst = (names.zip items).map Prod.fst := by
  induction names generalizing items i with
  | nil => rfl
  | cons name names ih =>
    cases items with
    | nil => rfl
    | cons item items => cases i <;> simp [ih]

/-- A plain record keeps its names, and its fields agree. -/
theorem Edit.plain_record? (h : Edit .plain j j') (names : List String) :
    Option.Rel (fun fields fields' => Agree .plain fields fields' ∧
        (fields.map Prod.fst).Perm (fields'.map Prod.fst))
      (j.record? names) (j'.record? names) := by
  obtain ⟨_, _, rfl, rfl, agree⟩ | ⟨items, i, _, item', rfl, rfl, here, inner⟩ := h.cases_value
  · exact .some ⟨agree, h.names_perm Shape.closed_plain⟩
  · by_cases short : items.length ≤ names.length
    · simp only [Json.record?, List.length_set, if_pos short]
      refine .some ⟨fun name _ => .of_item here fun _ _ => inner, ?_⟩
      rw [Json.map_fst_zip_set]
    · simp only [Json.record?, List.length_set, if_neg short]
      exact .none

theorem steady_timestamp : Steady .plain Timestamp.ofJson? := by
  intro j j' edit
  have rel := edit.plain_record? Timestamp.fieldNames
  unfold Timestamp.ofJson?
  generalize j.record? Timestamp.fieldNames = record, j'.record? Timestamp.fieldNames = record'
    at rel
  cases rel with
  | none => rfl
  | @some fields fields' both =>
    have only := both.2.all_eq (f := fun name => Timestamp.fieldNames.contains name)
    simp only [List.all_map, Function.comp_def] at only
    simp only [Option.bind_eq_bind, Option.bind_some, only,
      both.1.required "secs_since_epoch" steady_word64? rfl rfl,
      both.1.required "nanos_since_epoch" steady_word32? rfl rfl]

/-! ## Tagged values -/

namespace Shape

@[simp] theorem admits_withTag_self (tag : String) (s : Shape) :
    (s.withTag tag).admits tag = false := by
  cases s <;> simp [withTag, admits]

@[simp] theorem default?_withTag_self (tag : String) (s : Shape) :
    (s.withTag tag).default? tag = none := by
  cases s <;> simp [withTag, default?]

end Shape

/-- Records that agree beside their tag agree as records of the variant. -/
theorem Agree.of_withTag {tag : String} {inner : String → Shape}
    {default? : String → Option Json}
    (h : Agree (Shape.withTag tag (.record names inner default?)) fields fields') :
    Agree (.record names inner default?) fields fields' := by
  intro name known
  have change := h name (by simp_all [Shape.admits, Shape.withTag])
  generalize fields.lookup name = field, fields'.lookup name = field' at change
  cases change with
  | same => exact .same _
  | edited inner => exact .edited inner
  | filled default =>
    simp only [Shape.withTag, Shape.default?] at default
    split at default
    · simp at default
    · exact .filled default

theorem Json.tagged?_object_eq (tag : String) (members : Fields) :
    tagged? tag (.object members) =
      (members.required tag text?).map fun name => (name, .object members) := by
  simp only [tagged?, Fields.required]
  cases members.lookup tag with
  | none => rfl
  | some j => cases found : j.text? <;> simp [found]

/-- What an edit of a tagged value leaves: the same tag, and contents that agree as a record
of the variant that the tag chooses. -/
theorem Edit.tagged? {tag : String} {variant : String → Shape}
    (h : Edit (.tagged tag variant) j j') :
    Option.Rel (fun choice choice' => choice.1 = choice'.1 ∧
        AgreeAs (variant choice.1) choice.2 choice'.2) (j.tagged? tag) (j'.tagged? tag) := by
  obtain ⟨members, members', rfl, rfl, agree⟩ | ⟨items, i, item, item', rfl, rfl, here, edit⟩ :=
    h.cases_value
  · have same := agree.required tag steady_text? (by simp [Shape.resolve])
      (by simp [Shape.resolve])
    simp only [Shape.resolve, Json.tagged?_object_eq] at agree ⊢
    rw [← same]
    cases found : Fields.required members tag Json.text? with
    | none => exact .none
    | some name =>
      refine .some ⟨rfl, fun names inner default? (chosen : variant name = _) => .some ?_⟩
      simp only [found, Option.map_some, Option.elim_some, chosen] at agree ⊢
      exact agree.of_withTag
  · match items, i with
    | [], _ => simp at here
    | first :: rest, 0 =>
      -- The tag itself is edited, so it is not a text.
      obtain rfl : first = item := by simpa using here
      obtain ⟨_, _, rfl, rfl, -⟩ | ⟨_, _, _, _, rfl, rfl, -⟩ := edit.cases_value <;> exact .none
    | first :: rest, i + 1 =>
      simp only [List.set_cons_succ, Json.tagged?, Shape.resolve] at edit ⊢
      cases found : first.text? with
      | none => exact .none
      | some name =>
        refine .some ⟨rfl, fun names inner default? (chosen : variant name = _) =>
          Agree.of_item (by simpa using here) fun place listed => ?_⟩
        simpa [found, chosen, Shape.withTag, Shape.item, Shape.member, listed] using edit

/-- A reader of tagged values takes no notice of an edit if it reads contents alike that agree
as the tag says. -/
theorem Steady.of_tagged {tag : String} {variant : String → Shape}
    {ofContents? : String × Json → Option α}
    (h : ∀ name contents contents', AgreeAs (variant name) contents contents' →
      ofContents? (name, contents) = ofContents? (name, contents')) :
    Steady (.tagged tag variant) fun j => (j.tagged? tag).bind ofContents? := by
  intro j j' edit
  have rel := edit.tagged?
  dsimp only
  generalize j.tagged? tag = choice, j'.tagged? tag = choice' at rel
  cases rel with
  | @some choice choice' same =>
    obtain ⟨⟨name, contents⟩, ⟨name', contents'⟩⟩ := choice, choice'
    obtain ⟨rfl : name = name', agree⟩ := same
    exact h name contents contents' agree
  | none => rfl

/-- A reader of messages takes no notice of an edit if it reads fields alike that agree as the
name of the message says. -/
theorem Steady.of_message {variant : String → Shape} {ofFields? : String × Fields → Option α}
    (records : ∀ name, ∃ names inner, variant name = .record names inner fun _ => none)
    (h : ∀ name fields fields', Agree (variant name) fields fields' →
      ofFields? (name, fields) = ofFields? (name, fields')) :
    Steady (.message variant) fun j => j.message?.bind ofFields? := by
  intro j j' edit
  dsimp only
  obtain same | ⟨name, fields, fields', found, found', inner⟩ := edit.message?
  · rw [same]
  · rw [found, found', Option.bind_some, Option.bind_some]
    obtain ⟨names, shapes, chosen⟩ := records name
    exact h _ _ _ (Option.rel_some_some.1 (inner.agreeAs chosen))

/-! ## Requests and replies -/

/-- A record all of whose fields must be there, and hold no records. -/
def Shape.plainRecord (names : List String) : Shape :=
  .record names (fun _ => .plain) fun _ => none

namespace Request

/-- What is known of the fields of a kind of request. -/
def Kind.shape (kind : Request.Kind) : Shape :=
  .record (fieldNames kind) (fun _ => .plain) fun name =>
    if kind = .readDirectory ∧ name = "cursor" then some .null else none

/-- What is known of a request.  There are no fields of a kind that does not exist. -/
def shape : Shape :=
  .tagged "type" fun name => (Request.Kind.ofName? name).elim (.plainRecord []) Kind.shape

theorem ofFields?_eq {kind : Request.Kind} (h : Agree kind.shape fields fields') :
    ofFields? kind fields = ofFields? kind fields' := by
  have needed (name : String) {β : Type} {read? : Json → Option β} (steady : Steady .plain read?)
      (apart : name ≠ "cursor") (known : name ∈ fieldNames kind) :
      fields.required name read? = fields'.required name read? :=
    h.required name steady (by simpa [Kind.shape, Shape.admits] using known)
      (by simp [Kind.shape, Shape.default?, apart])
  have text (name : String) := needed name steady_text?
  have flag (name : String) := needed name steady_flag?
  have number (name : String) := needed name steady_word64?
  have path := text "path" (by decide)
  have openedBy := needed "open_request_id" RequestId.steady_ofJson? (by decide)
  cases kind with
  | unmount => rfl
  | getMetadata => simp only [ofFields?, path (by decide)]
  | readDirectory =>
    simp only [ofFields?, path (by decide), h.optional "cursor" Cursor.steady_ofJson? rfl rfl]
  | openFile =>
    simp only [ofFields?, path (by decide),
      needed "mode" OpenMode.steady_ofTaggedJson? (by decide) (by decide)]
  | closeFile => simp only [ofFields?, openedBy (by decide)]
  | readFile =>
    simp only [ofFields?, openedBy (by decide), number "offset" (by decide) (by decide),
      number "length" (by decide) (by decide)]
  | writeFile =>
    simp only [ofFields?, openedBy (by decide), number "offset" (by decide) (by decide),
      needed "data" steady_bytes? (by decide) (by decide)]
  | createDirectory =>
    simp only [ofFields?, path (by decide), flag "exclusive" (by decide) (by decide),
      flag "recursive" (by decide) (by decide)]
  | createFile => simp only [ofFields?, path (by decide)]
  | deleteEntry =>
    simp only [ofFields?, path (by decide), flag "recursive" (by decide) (by decide)]
  | copyEntry | moveEntry =>
    simp only [ofFields?, text "source" (by decide) (by decide),
      text "target" (by decide) (by decide)]
  | truncate => simp only [ofFields?, path (by decide), number "length" (by decide) (by decide)]

theorem steady_ofJson? : Steady shape ofJson? := by
  refine Steady.of_tagged fun name contents contents' agree => ?_
  cases found : Request.Kind.ofName? name with
  | none => simp [found]
  | some kind =>
    simp only [found, Option.elim_some, Option.bind_eq_bind, Option.bind_some] at agree ⊢
    exact agree.bind_eq fun fields fields' same => ofFields?_eq same

end Request

namespace EntryInfo

/-- What is known of a description.  Of a point in time, nothing may be added. -/
def shape : Shape :=
  .record fieldNames (fun _ => .plain) fun name => if name = "mime_type" then some .null else none

theorem ofFields?_eq (h : Agree shape fields fields') : ofFields? fields = ofFields? fields' := by
  simp only [ofFields?, h.required "name" steady_text? rfl rfl,
    h.required "is_directory" steady_flag? rfl rfl, h.required "size" steady_word64? rfl rfl,
    h.required "modification_time" steady_timestamp rfl rfl,
    h.optional "mime_type" steady_text? rfl rfl]

theorem ofJson?_eq (h : AgreeAs shape j j') : ofJson? j = ofJson? j' :=
  h.bind_eq fun _ _ => ofFields?_eq

end EntryInfo

namespace ListedEntry

/-- What is known of a line of a listing. -/
def shape : Shape := .plainRecord ["name", "is_directory"]

theorem steady_ofJson? : Steady shape ofJson? := by
  refine fun j j' edit => edit.agreeAs.bind_eq fun fields fields' h => ?_
  simp only [h.required "name" steady_text? rfl rfl,
    h.required "is_directory" steady_flag? rfl rfl]

end ListedEntry

namespace ListingPage

/-- What is known of a page. -/
def shape : Shape :=
  .record fieldNames (fun name => if name = "entries" then .items ListedEntry.shape else .plain)
    fun name => if name = "cursor" then some .null else none

theorem ofFields?_eq (h : Agree shape fields fields') : ofFields? fields = ofFields? fields' := by
  have entries : fields.required "entries" (Json.array? ListedEntry.ofJson?) = _ :=
    h.required "entries" (steady_array? ListedEntry.steady_ofJson?) rfl rfl
  simp only [ofFields?, entries, h.optional "cursor" Cursor.steady_ofJson? rfl rfl]

theorem ofJson?_eq (h : AgreeAs shape j j') : ofJson? j = ofJson? j' :=
  h.bind_eq fun _ _ => ofFields?_eq

end ListingPage

namespace Reply

/-- What is known of a reply. -/
def shape : Shape :=
  .tagged "type" fun
    | "none" => .plainRecord []
    | "metadata" => EntryInfo.shape
    | "entries" => ListingPage.shape
    | "data" => .plainRecord ["data"]
    | _ => .plainRecord []

theorem steady_ofJson? : Steady shape ofJson? := by
  refine Steady.of_tagged fun name contents contents' agree => ?_
  split at agree
  · exact agree.bind_eq fun _ _ _ => rfl
  · simp only [EntryInfo.ofJson?_eq agree]
  · simp only [ListingPage.ofJson?_eq agree]
  · exact agree.bind_eq fun fields fields' h => by
      simp only [h.required "data" steady_bytes? rfl rfl]
  · dsimp only
    split <;> simp_all

end Reply

/-! ## Messages and settings -/

namespace Fault

/-- What is known of a provider's error. -/
def shape : Shape := .plainRecord ["code", "message"]

theorem steady_ofJson? : Steady shape ofJson? := by
  refine fun j j' edit => edit.agreeAs.bind_eq fun fields fields' h => ?_
  simp only [h.required "code" FaultCode.steady_ofJson? rfl rfl,
    h.required "message" steady_text? rfl rfl]

end Fault

namespace MountSettings

/-- What is known of the settings of a mount. -/
def shape : Shape :=
  .record (MountInfo.fieldNames ++ ["request_timeout"]) (fun _ => .plain) fun
    | "writable" | "configurable" | "supports_continuation" => some (.flag false)
    | "request_timeout" => some (.text "10s")
    | _ => none

theorem ofFields?_eq (h : Agree shape fields fields') : ofFields? fields = ofFields? fields' := by
  have flag (name : String) (known : shape.admits name = false)
      (missing : shape.default? name = some (.flag false)) :
      fields.orElse name false Json.flag? = fields'.orElse name false Json.flag? :=
    h.orElse name steady_flag? known missing rfl
  have time : fields.orElse "request_timeout" defaultRequestTimeout TimeSpan.ofJson? = _ :=
    h.orElse "request_timeout" steady_text?.bind rfl rfl rfl
  simp only [ofFields?, MountInfo.ofFields?, h.required "provider_id" steady_text? rfl rfl,
    h.required "file_system_id" steady_text? rfl rfl,
    h.required "display_name" steady_text? rfl rfl, flag "writable" rfl rfl,
    flag "configurable" rfl rfl, flag "supports_continuation" rfl rfl, time]

theorem steady_ofJson? : Steady shape ofJson? := by
  intro j j' edit
  obtain ⟨members, members', rfl, rfl, agree⟩ | ⟨_, _, _, _, rfl, rfl, -⟩ := edit.cases_value
  · exact ofFields?_eq agree
  · rfl

end MountSettings

namespace Outgoing

/-- What is known of a message to the provider. -/
def shape : Shape :=
  .message fun
    | "Operation" =>
      .record ["request_id", "request"]
        (fun name => if name = "request" then Request.shape else .plain) fun _ => none
    | "Cancel" => .plainRecord ["request_id"]
    | _ => .plainRecord []

theorem steady_ofJson? : Steady shape ofJson? := by
  refine Steady.of_message (fun name => ?_) fun name fields fields' agree => ?_
  · split <;> exact ⟨_, _, rfl⟩
  · split at agree
    · simp only [agree.required "request_id" RequestId.steady_ofJson? rfl rfl,
        agree.required "request" Request.steady_ofJson? rfl rfl]
    · simp only [agree.required "request_id" RequestId.steady_ofJson? rfl rfl]
    · dsimp only
      split <;> simp_all

end Outgoing

namespace Incoming

/-- What is known of a message from the provider. -/
def shape : Shape :=
  .message fun
    | "Progress" | "Success" =>
      .record ["request_id", "response"]
        (fun name => if name = "response" then Reply.shape else .plain) fun _ => none
    | "Error" =>
      .record ["request_id", "error"]
        (fun name => if name = "error" then Fault.shape else .plain) fun _ => none
    | _ => .plainRecord []

theorem steady_ofJson? : Steady shape ofJson? := by
  refine Steady.of_message (fun name => ?_) fun name fields fields' agree => ?_
  · split <;> exact ⟨_, _, rfl⟩
  · split at agree
    · simp only [agree.required "request_id" RequestId.steady_ofJson? rfl rfl,
        agree.required "response" Reply.steady_ofJson? rfl rfl]
    · simp only [agree.required "request_id" RequestId.steady_ofJson? rfl rfl,
        agree.required "response" Reply.steady_ofJson? rfl rfl]
    · simp only [agree.required "request_id" RequestId.steady_ofJson? rfl rfl,
        agree.required "error" Fault.steady_ofJson? rfl rfl]
    · dsimp only
      split <;> simp_all

end Incoming

/-! ## Every reader -/

/-- All objects on the wire are read by the names of their members, and only the object that a
message consists of is counted. -/
structure ReadersTolerant : Prop where
  request : Tolerant Request.shape Request.ofJson?
  reply : Tolerant Reply.shape Reply.ofJson?
  description : Tolerant EntryInfo.shape EntryInfo.ofJson?
  line : Tolerant ListedEntry.shape ListedEntry.ofJson?
  page : Tolerant ListingPage.shape ListingPage.ofJson?
  fault : Tolerant Fault.shape Fault.ofJson?
  settings : Tolerant MountSettings.shape MountSettings.ofJson?
  outgoing : Tolerant Outgoing.shape Outgoing.ofJson?
  incoming : Tolerant Incoming.shape Incoming.ofJson?
  /-- A message has one name. -/
  counted : ∀ members : Fields, members.length ≠ 1 →
    Outgoing.ofJson? (.object members) = none ∧ Incoming.ofJson? (.object members) = none

/-- No reader of an object takes notice of the order of its members, of members that are not
fields, or of whether a default is written out. -/
theorem readers_tolerant : ReadersTolerant where
  request := Request.steady_ofJson?.tolerant
  reply := Reply.steady_ofJson?.tolerant
  description := Steady.tolerant fun _ _ edit => EntryInfo.ofJson?_eq edit.agreeAs
  line := ListedEntry.steady_ofJson?.tolerant
  page := Steady.tolerant fun _ _ edit => ListingPage.ofJson?_eq edit.agreeAs
  fault := Fault.steady_ofJson?.tolerant
  settings := MountSettings.steady_ofJson?.tolerant
  outgoing := Outgoing.steady_ofJson?.tolerant
  incoming := Incoming.steady_ofJson?.tolerant
  counted := fun members many => by
    simp [Outgoing.ofJson?, Incoming.ofJson?, Json.message?_eq_none many]

/-- A request with its tag in the last place, a member that no request has, and a cursor that
is null, inside a message whose fields are the other way round. -/
theorem readers_tolerant_operation :
    Outgoing.ofJson? (.object [("Operation", .object [
      ("request", .object [("cursor", .null), ("note", .int 7), ("path", .text "/"),
        ("type", .text "read_directory")]),
      ("request_id", .int 1)])]) = some (.operation ⟨1⟩ (.readDirectory "/" none)) := by
  have filled : Edit Request.shape
      (.object [("note", .int 7), ("path", .text "/"), ("type", .text "read_directory")])
      (.object [("cursor", .null), ("note", .int 7), ("path", .text "/"),
        ("type", .text "read_directory")]) := .fill (by simp [Fields.Distinct]) rfl
  have added : Edit Request.shape
      (.object [("path", .text "/"), ("type", .text "read_directory")])
      (.object [("note", .int 7), ("path", .text "/"), ("type", .text "read_directory")]) :=
    .add (by simp [Fields.Distinct]) rfl
  have turned : Edit Request.shape
      (.object [("type", .text "read_directory"), ("path", .text "/")])
      (.object [("path", .text "/"), ("type", .text "read_directory")]) :=
    .reorder (by simp [Fields.Distinct]) (.swap ..)
  have inside {j j' : Json} (edit : Edit Request.shape j j') : Edit Outgoing.shape
      (.object [("Operation", .object [("request", j), ("request_id", .int 1)])])
      (.object [("Operation", .object [("request", j'), ("request_id", .int 1)])]) :=
    @Edit.member _ [] [] _ _ _ (by simp [Fields.Distinct])
      (@Edit.member _ [] _ _ _ _ (by simp [Fields.Distinct]) edit)
  have same := readers_tolerant.outgoing
    (.trans _ _ _ (.rel _ _ (inside turned)) (.trans _ _ _ (.rel _ _ (inside added))
      (.rel _ _ (inside filled))))
  rw [← same]
  rfl

end FileRelay
