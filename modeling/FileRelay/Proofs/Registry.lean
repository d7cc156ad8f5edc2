import FileRelay.Proofs.Closing

/-!
# The files that are open

The files that are open on a mount are told by the whole history of opens and closes: a file
is in the table if and only if the provider granted to open it while the mount was there, and
has not granted since to close it.  No other reply, and no failure, puts a file in or takes
one out.
-/

namespace FileRelay

/-- A file as it is while nobody closes it. -/
def OpenFile.unmarked (file : OpenFile) : OpenFile := { file with closing := false }

theorem OpenFiles.unmarked_mark (files : List OpenFile) (id : HandleId) (closing : Bool) :
    (OpenFiles.mark ⟨files⟩ id closing).files.map OpenFile.unmarked =
      files.map OpenFile.unmarked := by
  rw [OpenFiles.mark, List.map_map]
  apply List.map_congr_left
  intro file _
  show OpenFile.unmarked (if file.id = id then _ else _) = file.unmarked
  split <;> rfl

namespace State

variable {s₀ s t u v w x y : State} {key : RequestKey} {path : String} {mode : OpenMode}
  {tag : Option String} {id : HandleId} {opener : RequestId} {steps before after : List State}

/-! ## What is in the table, and what should be -/

/-- The table has a file of a given id, path and mode, and of a given opener. -/
def Holds (s : State) (id : HandleId) (path : String) (mode : OpenMode) (opener : RequestId) :
    Prop :=
  ∃ file ∈ s.openFiles, file.id = id ∧ file.path = path ∧ file.mode = mode ∧ file.openedBy = opener

instance : Decidable (s.Holds id path mode opener) :=
  inferInstanceAs (Decidable (∃ file ∈ s.openFiles, _ ∧ _ ∧ _ ∧ _))

/-- In one of some steps a close of a file is called, under a given key. -/
def Called (steps : List State) (id : HandleId) (key : RequestKey) : Prop :=
  ∃ v ∈ steps, ∃ w tag followUp, v.Starts w (.closeFile id) tag followUp key

/-- In the course of some steps a close of a file is called and granted. -/
def ClosedIn (steps : List State) (id : HandleId) : Prop :=
  ∃ first x last key, steps = first ++ x :: last ∧ Called first id key ∧ x.Closes key id

/-- In the course of some steps a file was recorded that has not been closed since. -/
def Registered (steps : List State) (id : HandleId) (path : String) (mode : OpenMode)
    (opener : RequestId) : Prop :=
  ∃ before x after key tag, steps = before ++ x :: after ∧ x.Opens key path mode tag id ∧
    key.id = opener ∧ ¬ ClosedIn after id

theorem Opens.unique {key' : RequestKey} {path' : String} {mode' : OpenMode}
    {tag' : Option String} {id' : HandleId} (h : s.Opens key path mode tag id)
    (k : s.Opens key' path' mode' tag' id') :
    key' = key ∧ path' = path ∧ mode' = mode ∧ tag' = tag ∧ id' = id := by
  obtain ⟨p, followUp, rest, hp, rfl, owner⟩ := h.first
  obtain ⟨q, followUp', rest', hq, rfl, owner'⟩ := k.first
  rw [hp] at hq
  cases hq
  rw [owner] at owner'
  cases owner'
  obtain ⟨pool, drawn⟩ := h.drawn
  obtain ⟨pool', drawn'⟩ := k.drawn
  rw [drawn] at drawn'
  cases id
  cases id'
  cases drawn'
  exact ⟨rfl, rfl, rfl, rfl, rfl⟩

theorem Closes.unique {key' : RequestKey} {id' : HandleId} (h : s.Closes key id)
    (k : s.Closes key' id') : key' = key ∧ id' = id := by
  obtain ⟨p, tag, followUp, rest, hp, rfl, owner⟩ := h
  obtain ⟨-, rfl, _, _, owner'⟩ := k.owner hp
  rw [owner] at owner'
  cases owner'
  exact ⟨rfl, rfl⟩

theorem Opens.not_closes {key' : RequestKey} {id' : HandleId} (h : s.Opens key path mode tag id) :
    ¬ s.Closes key' id' := by
  intro closes
  obtain ⟨p, followUp, rest, hp, -, owner⟩ := h.first
  obtain ⟨-, -, _, _, owner'⟩ := closes.owner hp
  rw [owner] at owner'
  cases owner'

/-! ## A step -/

/-- What a step means for the files that are open, marks aside. -/
inductive Outcome (s t : State) : Prop
  | same (no_open : ∀ key path mode tag id, ¬ s.Opens key path mode tag id)
      (no_close : ∀ key id, ¬ s.Closes key id)
      (files : t.openFiles.map OpenFile.unmarked = s.openFiles.map OpenFile.unmarked)
  | record {key : RequestKey} {path : String} {mode : OpenMode} {tag : Option String}
      {file : OpenFile} (opens : s.Opens key path mode tag file.id) (path_eq : file.path = path)
      (mode_eq : file.mode = mode) (opener : file.openedBy = key.id)
      (files : t.openFiles.Perm (file :: s.openFiles))
  | forget {key : RequestKey} {id : HandleId} (closes : s.Closes key id)
      (files : t.openFiles = s.openFiles.filter (·.id ≠ id))

theorem Filing.outcome (h : Filing s t) : Outcome s t := by
  cases h with
  | same no_open no_close files => exact .same no_open no_close (by rw [files])
  | mark called _ files =>
    refine .same ?_ ?_ ?_
    · intro key path mode tag id opens
      obtain ⟨p, followUp, rest, first, -⟩ := opens.first
      rw [called] at first
      cases first
    · rintro key id ⟨p, tag, followUp, rest, first, -⟩
      rw [called] at first
      cases first
    · rw [files, OpenFiles.unmarked_mark]
  | record opens path mode opener _ files => exact .record opens path mode opener files
  | @close p ending tag followUp id result rest first owner granted files =>
    by_cases success : result.toBool
    · rw [if_pos success] at files
      refine .forget ⟨p, tag, followUp, rest, ?_, rfl, owner⟩ files
      rw [first, granted.1 success]
    · rw [if_neg success] at files
      refine .same ?_ ?_ ?_
      · intro key path mode tag' id' opens
        obtain ⟨-, _, other⟩ := opens.owner first
        rw [owner] at other
        cases other
      · intro key id' closes
        exact success (granted.2 (closes.owner first).1)
      · rw [files, OpenFiles.unmarked_mark]

/-- A file that is neither marked nor closed stays as it is. -/
theorem Filing.mem_of_apart {file : OpenFile} (h : Filing s t) (mem : file ∈ s.openFiles)
    (uncalled : ∀ p tag followUp self rest,
      s.agenda = .issue (.operate (.closeFile file.id) tag followUp) self :: rest →
      ¬ Enters (.issue (.operate (.closeFile file.id) tag followUp) self) p
        { s with agenda := rest } t)
    (unclosed : ∀ p ending tag followUp rest, s.agenda = .complete p ending :: rest →
      p.owner ≠ .operation (.closing file.id) tag followUp) : file ∈ t.openFiles := by
  cases h with
  | same _ _ files => exact files ▸ mem
  | @mark id tag followUp self rest called enters files =>
    have apart : file.id ≠ id := by
      rintro rfl
      obtain ⟨p, enters⟩ := enters
      exact uncalled p tag followUp self rest called enters
    have marked := mem_mark id true mem
    rw [if_neg apart, ← files] at marked
    exact marked
  | record _ _ _ _ _ files => exact files.mem_iff.2 (List.mem_cons_of_mem _ mem)
  | @close p ending tag followUp id _ rest first owner _ files =>
    have apart : file.id ≠ id := by
      rintro rfl
      exact unclosed p ending tag followUp rest first owner
    rw [files]
    split
    · exact List.mem_filter.2 ⟨mem, by simpa using apart⟩
    · have kept := mem_mark id false mem
      rwa [if_neg apart] at kept

theorem holds_iff_unmarked : s.Holds id path mode opener ↔
    ∃ file ∈ s.openFiles.map OpenFile.unmarked,
      file.id = id ∧ file.path = path ∧ file.mode = mode ∧ file.openedBy = opener := by
  simp [Holds, OpenFile.unmarked]

theorem holds_of_record {file : OpenFile} (files : t.openFiles.Perm (file :: s.openFiles)) :
    t.Holds id path mode opener ↔ s.Holds id path mode opener ∨
      file.id = id ∧ file.path = path ∧ file.mode = mode ∧ file.openedBy = opener := by
  simp only [Holds, files.mem_iff, List.mem_cons, exists_eq_or_imp]
  exact or_comm

theorem holds_of_forget {other : HandleId}
    (files : t.openFiles = s.openFiles.filter (·.id ≠ other)) :
    t.Holds id path mode opener ↔ s.Holds id path mode opener ∧ id ≠ other := by
  simp only [Holds, files, List.mem_filter, decide_eq_true_eq]
  constructor
  · rintro ⟨file, ⟨mem, apart⟩, rfl, data⟩
    exact ⟨⟨file, mem, rfl, data⟩, apart⟩
  · rintro ⟨⟨file, mem, rfl, data⟩, apart⟩
    exact ⟨file, ⟨mem, apart⟩, rfl, data⟩

/-! ## Histories that grow by a step -/

theorem concat_eq_append_cons : steps ++ [t] = first ++ x :: last ↔
    (first = steps ∧ x = t ∧ last = []) ∨
      ∃ init, last = init ++ [t] ∧ steps = first ++ x :: init := by
  constructor
  · intro h
    rcases List.eq_nil_or_concat last with rfl | ⟨init, z, rfl⟩
    · obtain ⟨rfl, hx⟩ := List.append_inj' h rfl
      cases hx
      exact .inl ⟨rfl, rfl, rfl⟩
    · rw [List.concat_eq_append, ← List.cons_append, ← List.append_assoc] at h
      obtain ⟨rfl, hz⟩ := List.append_inj' h rfl
      cases hz
      exact .inr ⟨init, List.concat_eq_append, rfl⟩
  · rintro (⟨rfl, rfl, rfl⟩ | ⟨init, rfl, rfl⟩)
    · rfl
    · simp

theorem not_closedIn_nil : ¬ ClosedIn [] id := by
  rintro ⟨first, x, last, key, cut, -⟩
  simp at cut

theorem closedIn_concat : ClosedIn (steps ++ [t]) id ↔
    ClosedIn steps id ∨ ∃ key, Called steps id key ∧ t.Closes key id := by
  constructor
  · rintro ⟨first, x, last, key, cut, called, closes⟩
    rcases concat_eq_append_cons.1 cut with ⟨rfl, rfl, rfl⟩ | ⟨init, rfl, rfl⟩
    · exact .inr ⟨key, called, closes⟩
    · exact .inl ⟨first, x, init, key, rfl, called, closes⟩
  · rintro (⟨first, x, last, key, rfl, called, closes⟩ | ⟨key, called, closes⟩)
    · exact ⟨first, x, last ++ [t], key, by simp, called, closes⟩
    · exact ⟨steps, t, [], key, rfl, called, closes⟩

theorem registered_concat : Registered (steps ++ [t]) id path mode opener ↔
    (∃ before x after key tag, steps = before ++ x :: after ∧ x.Opens key path mode tag id ∧
      key.id = opener ∧ ¬ ClosedIn (after ++ [t]) id) ∨
    ∃ key tag, t.Opens key path mode tag id ∧ key.id = opener := by
  constructor
  · rintro ⟨before, x, after, key, tag, cut, opens, own, still⟩
    rcases concat_eq_append_cons.1 cut with ⟨rfl, rfl, rfl⟩ | ⟨init, rfl, rfl⟩
    · exact .inr ⟨key, tag, opens, own⟩
    · exact .inl ⟨before, x, init, key, tag, rfl, opens, own, still⟩
  · rintro (⟨before, x, after, key, tag, rfl, opens, own, still⟩ | ⟨key, tag, opens, own⟩)
    · exact ⟨before, x, after ++ [t], key, tag, by simp, opens, own, still⟩
    · exact ⟨steps, t, [], key, tag, rfl, opens, own, not_closedIn_nil⟩

/-- Unless a step grants a close, it does not matter to what was recorded before. -/
theorem registered_concat_of_not_closes (h : ∀ key, ¬ t.Closes key id) :
    Registered (steps ++ [t]) id path mode opener ↔ Registered steps id path mode opener ∨
      ∃ key tag, t.Opens key path mode tag id ∧ key.id = opener := by
  have same : ∀ after, ClosedIn (after ++ [t]) id ↔ ClosedIn after id := by
    intro after
    rw [closedIn_concat]
    exact or_iff_left fun ⟨key, _, closes⟩ => h key closes
  rw [registered_concat]
  simp only [same]
  rfl

/-! ## An open and a close that have ended -/

/-- A file is recorded in the step that brings the callback of its caller up. -/
theorem Opens.recorded (h : s.Opens key path mode tag id) (hs : s.Sane) (kept : s.Kept)
    (step : s.step = some t) :
    (∃ file ∈ t.openFiles, file.id = id ∧ file.path = path ∧ file.mode = mode ∧
      file.openedBy = key.id ∧ file.closing = false) ∧
    ∃ followUp rest, t.agenda = .done key tag (.ok (.file id)) followUp :: rest := by
  obtain ⟨p, followUp, rest, first, -, owner⟩ := h.first
  cases filing_of_step hs h.there (kept.not_mem_closeFiles h.there) step with
  | same no_open => exact (no_open _ _ _ _ _ h).elim
  | mark called =>
    rw [first] at called
    cases called
  | record opens path_eq mode_eq opener usable files agenda =>
    obtain ⟨rfl, rfl, rfl, rfl, rfl⟩ := h.unique opens
    exact ⟨⟨_, files.mem_iff.2 List.mem_cons_self, rfl, path_eq, mode_eq, opener, usable⟩,
      _, _, agenda⟩
  | close other owner' =>
    rw [first] at other
    cases other
    rw [owner] at owner'
    cases owner'

/-- A file is taken out in the step that brings the callback of the close up, from the mount,
up or not, if there is one. -/
theorem Closes.forgotten (h : s.Closes key id) (step : s.step = some t) :
    (∃ tag value followUp rest, t.agenda = .done key tag (.ok value) followUp :: rest) ∧
    ∀ m, t.mount? = some m → ∀ file ∈ m.files.files, file.id ≠ id := by
  obtain ⟨p, tag, followUp, rest, ha, rfl, owner⟩ := h
  obtain ⟨result, completed, granted⟩ :=
    complete_of_closing { s with agenda := rest } (.completed .nothing) owner
  rw [step_of_agenda ha, Option.some.injEq] at step
  rw [show t = _ from step.symm.trans completed, granted.2 rfl]
  constructor
  · cases result with
    | error => cases granted.2 rfl
    | ok value =>
      exact ⟨tag, value, followUp, rest, congrArg (List.cons _) (agenda_endClose _ _ _)⟩
  · intro m hm file mem
    have files := openFiles_of_mount (Option.eq_some_of_filter_eq_some hm)
    cases inUse : ({ s with agenda := rest } : State).mount?.isSome with
    | true =>
      rw [← files, show openFiles (push _ _) = _ from openFiles_endClose _ true inUse] at mem
      simpa using (List.mem_filter.1 mem).2
    | false =>
      rw [Option.isSome_eq_false_iff, Option.isNone_iff_eq_none] at inUse
      rw [State.endClose, inUse, mount?, push, List.any_append] at hm
      rw [mount?] at inUse
      simp only [List.any_cons, Task.leavesMount, List.any_nil, Bool.false_or] at hm
      rw [inUse] at hm
      cases hm

/-- As a file is recorded, no close of it is under way. -/
theorem Opens.not_closing {other : RequestKey} (h : s.Opens key path mode tag id) (hs : s.Sane)
    (kept : s.Kept) (ht : t.Sane) (kept' : t.Kept) (alive : t.there) (step : s.step = some t) :
    ¬ (t.trace other).Closing id := by
  intro closing
  obtain ⟨⟨file, mem, rfl, -, -, -, usable⟩, -⟩ := h.recorded hs kept step
  obtain ⟨found, mem', same, marked⟩ := kept'.marked alive other file.id closing
  rw [ht.accounted.eq_of_handle mem mem' same, usable] at marked
  cases marked

/-- A close that is granted is under way until then. -/
theorem Closes.closing (h : s.Closes key id) (fate : s.Fate key) : (s.trace key).Closing id := by
  obtain ⟨p, tag, followUp, rest, first, rfl, owner⟩ := h
  rw [(fate.carries first rfl).1]
  exact .complete owner

/-! ## A run -/

section run

variable (start : Start s₀)
include start

theorem Course.kept (course : Course s₀ steps u) : u.Kept := course.reaches.kept start

/-- A close that is granted after its file was recorded was called after that. -/
theorem Course.called_of_closes (course : Course s₀ (before ++ x :: after) t) (alive : t.there)
    {other : RequestKey} (opens : x.Opens other path mode tag id) (closes : t.Closes key id) :
    Called after id key := by
  obtain ⟨y, toX, step, fair, fromY⟩ := course.split
  have toY : Course s₀ (before ++ [x]) y := toX.work step fair
  have quiet : ¬ (y.trace key).Closing id :=
    opens.not_closing (toX.sane start) (toX.kept start) (toY.sane start) (toY.kept start)
      (fromY.there_of_there (toY.sane start) alive) step
  obtain ⟨first, v, last, w, rfl, toV, next, -, -, not_yet, closing⟩ :=
    fromY.exists_turn quiet (closes.closing (course.fate start key))
  have fromStart : Course s₀ (before ++ [x] ++ first) v := toY.trans toV
  rcases next.closing_or_starts (fromStart.sane start) (fromStart.fate start key) closing with
    already | ⟨tag', followUp, starts⟩
  · exact (not_yet already).elim
  · exact ⟨v, by simp, w, tag', followUp, starts⟩

/-- Once a close is granted, what was recorded under its id counts no more. -/
theorem Course.registered_of_closes (course : Course s₀ steps t) (alive : t.there)
    {closed : HandleId} (closes : t.Closes key closed) :
    Registered (steps ++ [t]) id path mode opener ↔
      Registered steps id path mode opener ∧ id ≠ closed := by
  rw [registered_concat]
  constructor
  · rintro (⟨before, x, after, key', tag, rfl, opens, own, still⟩ | ⟨_, _, opens, -⟩)
    · rw [closedIn_concat, not_or] at still
      refine ⟨⟨before, x, after, key', tag, rfl, opens, own, still.1⟩, ?_⟩
      rintro rfl
      exact still.2 ⟨key, course.called_of_closes start alive opens closes, closes⟩
    · exact (opens.not_closes closes).elim
  · rintro ⟨⟨before, x, after, key', tag, rfl, opens, own, still⟩, other⟩
    refine .inl ⟨before, x, after, key', tag, rfl, opens, own, ?_⟩
    rw [closedIn_concat]
    rintro (closed | ⟨_, -, closes'⟩)
    · exact still closed
    · exact other (closes.unique closes').2

/-- The table of a mount that is there, told by its history. -/
theorem Course.holds_iff (course : Course s₀ steps u) (none : s₀.openFiles = [])
    (alive : u.there) :
    u.Holds id path mode opener ↔ Registered steps id path mode opener := by
  induction course with
  | start =>
    constructor
    · rintro ⟨file, mem, -⟩
      rw [none] at mem
      cases mem
    · rintro ⟨before, x, after, key, tag, cut, -⟩
      simp at cut
  | @work steps t u course step fair ih =>
    have sane := course.sane start
    have alive' := (Next.work step fair).there_of_there sane alive
    cases (filing_of_step sane alive'
      ((course.kept start).not_mem_closeFiles alive') step).outcome with
    | same no_open no_close files =>
      rw [registered_concat_of_not_closes fun key => no_close key id, holds_iff_unmarked, files,
        ← holds_iff_unmarked, ih alive']
      exact (or_iff_left fun ⟨key, tag, opens, _⟩ => no_open key path mode tag id opens).symm
    | @record key path' mode' tag file opens path_eq mode_eq opener' files =>
      rw [registered_concat_of_not_closes fun _ => opens.not_closes, ← ih alive',
        holds_of_record files]
      refine or_congr_right ⟨?_, ?_⟩
      · rintro ⟨rfl, rfl, rfl, rfl⟩
        subst path_eq mode_eq
        exact ⟨key, tag, opens, opener'.symm⟩
      · rintro ⟨key', tag', opens', own⟩
        obtain ⟨rfl, rfl, rfl, rfl, rfl⟩ := opens.unique opens'
        exact ⟨rfl, path_eq, mode_eq, opener'.trans own⟩
    | forget closes files =>
      rw [holds_of_forget files, ih alive', course.registered_of_closes start alive' closes]
  | call course call self ih =>
    exact ih ((Next.call call self).there_of_there (course.sane start) alive)
  | rewind course n ih => exact ih ((Next.rewind n).there_of_there (course.sane start) alive)

/-- A file that may be used stays as it is, as long as the mount is there and nobody calls a
close of it. -/
theorem Course.mem_of_idle {file : OpenFile} (toY : Course s₀ before y)
    (fromY : Course y after x) (alive : x.there) (mem : file ∈ y.openFiles)
    (usable : file.closing = false) (idle : ∀ other, ¬ Called after file.id other) :
    file ∈ x.openFiles := by
  induction fromY with
  | start => exact mem
  | @work after t u fromY step fair ih =>
    have toT : Course s₀ (before ++ after) t := toY.trans fromY
    have next : Next t u := .work step fair
    have sane := toT.sane start
    have alive' := next.there_of_there sane alive
    have early : ∀ other, ¬ Called after file.id other := by
      rintro other ⟨v, mem, called⟩
      exact idle other ⟨v, List.mem_append_left _ mem, called⟩
    have there := ih alive' early
    refine (filing_of_step sane alive'
      ((toT.kept start).not_mem_closeFiles alive') step).mem_of_apart there ?_ ?_
    · intro p tag followUp self rest called enters
      have starts := enters.starts called step (next.sane sane) (toT.fate start p.key)
      exact idle p.key ⟨t, by simp, u, tag, followUp, starts⟩
    · -- A file whose close is under way is marked.
      intro p ending tag followUp rest first owner
      have closing := ((toT.fate start p.key).carries first rfl).1
      obtain ⟨other, mem', same, marked⟩ :=
        (toT.kept start).marked alive' p.key file.id (closing ▸ .complete owner)
      rw [sane.accounted.eq_of_handle there mem' same, usable] at marked
      cases marked
  | call fromY call self ih =>
    exact ih ((Next.call call self).there_of_there ((toY.trans fromY).sane start) alive) idle
  | rewind fromY n ih =>
    exact ih ((Next.rewind n).there_of_there ((toY.trans fromY).sane start) alive) idle

/-- A file that was closed is in the table no more, as long as none is recorded under its id. -/
theorem Course.not_holds_of_closes (course : Course s₀ (before ++ y :: after) x)
    (none : s₀.openFiles = []) (alive : x.there) (closes : y.Closes key id)
    (unused : ∀ z ∈ after, ∀ key path mode tag, ¬ z.Opens key path mode tag id) :
    ∀ file ∈ x.openFiles, file.id ≠ id := by
  rintro file mem rfl
  obtain ⟨z, toY, step, fair, fromZ⟩ := course.split
  have alive' : y.there := (Next.work step fair).there_of_there (toY.sane start)
    (fromZ.there_of_there ((toY.work step fair).sane start) alive)
  have holds : x.Holds file.id file.path file.mode file.openedBy := ⟨file, mem, rfl, rfl, rfl, rfl⟩
  rw [course.holds_iff start none alive] at holds
  obtain ⟨first, r, last, key', tag, cut, opens, -, still⟩ := holds
  rcases List.append_eq_append_iff.1 cut with ⟨more, rfl, same⟩ | ⟨more, rfl, same⟩
  · cases more with
    | nil =>
      cases same
      exact opens.not_closes closes
    | cons =>
      cases same
      exact unused r (by simp) _ _ _ _ opens
  · cases more with
    | nil =>
      cases same
      exact opens.not_closes closes
    | cons _ more =>
      cases same
      exact still ⟨more, y, after, key, rfl, toY.called_of_closes start alive' opens closes, closes⟩

end run

end State

end FileRelay
