import FileRelay.Proofs.HandOver
import FileRelay.Proofs.Handles
import FileRelay.Proofs.Telling

/-!
# What a mount lets through to its provider

Each operation of a mount is checked before its request is registered, with checks of its own:
whether the mount may be written to, whether a listing may be taken up again, what an open file may
be used for.  Nothing is checked any more as the request is handed over.  This file says what the
checks come to for each request, and that whatever is handed over has passed them.  What an open
file may be used for goes back to the open that it was recorded for, and this has passed them too.
-/

namespace FileRelay

/-- What the description of a mount and the open files of some kind allow a request to be. -/
def Request.Allowed (info : MountInfo) (known : OpenFile → Prop) : Request → Prop
  | .unmount | .getMetadata _ => True
  | .readDirectory _ cursor => cursor.isSome → info.supportsContinuation
  | .openFile _ mode => mode.canWrite → info.writable
  | .closeFile opener => ∃ file, known file ∧ file.openedBy = opener
  | .readFile opener _ _ => ∃ file, known file ∧ file.openedBy = opener ∧ file.mode.canRead
  | .writeFile opener _ _ =>
    info.writable ∧ ∃ file, known file ∧ file.openedBy = opener ∧ file.mode.canWrite
  | .createDirectory .. | .createFile _ | .deleteEntry .. | .copyEntry .. | .moveEntry ..
  | .truncate .. => info.writable

variable {info : MountInfo} {known known' : OpenFile → Prop} {content : Request}

theorem Request.Allowed.mono (h : content.Allowed info known)
    (more : ∀ file, known file → known' file) : content.Allowed info known' := by
  cases content with
  | closeFile | readFile =>
    obtain ⟨file, there, law⟩ := h
    exact ⟨file, more file there, law⟩
  | writeFile =>
    obtain ⟨writable, file, there, law⟩ := h
    exact ⟨writable, file, more file there, law⟩
  | _ => exact h

/-- What changes contents is allowed only if the mount may be written to. -/
theorem Request.Allowed.writable (h : content.Allowed info known)
    (changes : content.kind.changesContents) : info.writable := by
  cases content with
  | writeFile => exact h.1
  | createDirectory | createFile | deleteEntry | copyEntry | moveEntry | truncate => exact h
  | unmount | getMetadata | readDirectory | openFile | closeFile | readFile => cases changes

section checks

variable {operation : Operation} {mounted : Bool} {table : OpenFiles}

theorem Operation.of_admitted {request : Request}
    (h : Operation.request.admitted info mounted request = .ok content) :
    request = content ∧ (request.kind.changesContents → info.writable) := by
  unfold Operation.request.admitted MountInfo.permits at h
  split at h
  · cases h
  · split at h
    · cases h
    · rename_i permitted
      cases h
      refine ⟨rfl, fun changes => ?_⟩
      simpa [changes] using permitted

theorem Operation.openFile_of_request {path : String} {mode : OpenMode}
    (h : (Operation.openFile path mode).request info mounted table = .ok content) :
    content = .openFile path mode ∧ (mode.canWrite → info.writable) := by
  rw [Operation.request] at h
  split at h
  · cases h
  · rename_i permitted
    obtain ⟨rfl, -⟩ := of_admitted h
    refine ⟨rfl, fun writes => ?_⟩
    simpa [writes] using permitted

/-- The checks of an operation let through a request of its kind, and only what is allowed. -/
theorem Operation.allowed_of_request (h : operation.request info mounted table = .ok content) :
    content.kind = operation.kind ∧
      content.Allowed info fun file => file ∈ table.files ∧ file.closing = false := by
  cases operation with
  | getMetadata | unmount =>
    obtain ⟨rfl, -⟩ := of_admitted h
    exact ⟨rfl, trivial⟩
  | createDirectory | createFile | deleteEntry | copyEntry | moveEntry | truncate =>
    obtain ⟨rfl, writable⟩ := of_admitted h
    exact ⟨rfl, writable rfl⟩
  | readDirectory path cursor =>
    rw [Operation.request] at h
    split at h
    · cases h
    · rename_i resumable
      obtain ⟨rfl, -⟩ := of_admitted h
      refine ⟨rfl, fun resumes => ?_⟩
      simpa [resumes] using resumable
  | openFile path mode =>
    obtain ⟨rfl, writable⟩ := openFile_of_request h
    exact ⟨rfl, writable⟩
  | closeFile id =>
    obtain ⟨file, mem, -, usable, rfl⟩ := closeFile_of_request h
    exact ⟨rfl, file, ⟨mem, usable⟩, rfl⟩
  | readData id offset length =>
    obtain ⟨file, mem, -, usable, h⟩ := OpenFiles.exists_of_use h
    split at h
    · cases h
    · rename_i readable
      obtain ⟨rfl, -⟩ := of_admitted h
      exact ⟨rfl, file, ⟨mem, usable⟩, rfl, by simpa using readable⟩
  | writeData id offset data =>
    obtain ⟨file, mem, -, usable, h⟩ := OpenFiles.exists_of_use h
    split at h
    · cases h
    · rename_i fits
      obtain ⟨rfl, writable⟩ := of_admitted h
      exact ⟨rfl, writable rfl, file, ⟨mem, usable⟩, rfl, by simpa using fits⟩

/-- Only a close becomes a request to close a file. -/
theorem Operation.exists_closeFile_of_request {opener : RequestId}
    (h : operation.request info mounted table = .ok (.closeFile opener)) :
    ∃ id, operation = .closeFile id ∧ ∃ file ∈ table.files, file.id = id ∧
      file.openedBy = opener := by
  have kind := (allowed_of_request h).1
  cases operation with
  | closeFile id =>
    obtain ⟨file, mem, own, -, same⟩ := closeFile_of_request h
    cases same
    exact ⟨id, rfl, file, mem, own, rfl⟩
  | _ => cases kind

end checks

namespace State

variable {s₀ s t u v w x : State} {rest : List Task} {key : RequestKey} {p q : Pending}
  {operation : Operation} {tag : Option String} {followUp : List Call} {file : OpenFile}
  {id : HandleId} {path : String} {mode : OpenMode} {opener : RequestId}
  {steps before after : List State} {settings : MountSettings} {link : Link} {timersRun : Bool}
  {firstId : UInt32} {horizon : Nat}

/-! ## The kind of a request -/

/-- The request of an operation is of the kind of what the operation becomes. -/
theorem kind_of_operate {call : Call} {self : RequestId}
    (h : (s.operate call self operation tag followUp).ledger = s.ledger.insert p) :
    ∃ m content, s.heldMount? = some m ∧
      operation.request m.settings.info m.mounted m.files = .ok content ∧
      p.kind = content.kind := by
  have unchanged : s.ledger ≠ s.ledger.insert p := fun same =>
    Nat.succ_ne_self _ (congrArg Ledger.nextSerial same).symm
  unfold State.operate at h
  cases hm : s.heldMount? with
  | none =>
    rw [hm] at h
    exact (unchanged h).elim
  | some m =>
    rw [hm] at h
    dsimp only at h
    cases hr : operation.request m.settings.info m.mounted m.files with
    | error failure =>
      rw [hr] at h
      exact (unchanged h).elim
    | ok content =>
      rw [hr] at h
      dsimp only at h
      refine ⟨m, content, rfl, hr, ?_⟩
      split at h
      · exact (unchanged h).elim
      · rename_i registered
        refine register?_kind registered ?_
        rw [← h]
        cases operation <;> rfl

/-- The request that an accepted operation registers is the one that the operation becomes. -/
theorem Bears.request_of_starts {task : Task} (h : v.Bears w task p)
    (starts : v.Starts w operation tag followUp key) (hv : v.Sane) :
    ∃ m content, v.heldMount? = some m ∧
      operation.request m.settings.info m.mounted m.files = .ok content ∧
      p.kind = content.kind := by
  obtain ⟨self, rest, called⟩ := starts.call
  obtain ⟨rest', ha, enters⟩ := h.enters hv
  obtain ⟨rfl, rfl⟩ := List.cons.inj (ha.symm.trans called)
  have issued := step_of_agenda called
  rw [h.step, Option.some.injEq] at issued
  have entered := enters.ledger
  rw [issued] at entered
  exact kind_of_operate (s := { v with agenda := rest' }) entered

/-! ## Where open files come from -/

/-- In the course of some steps a file was recorded, for an open that was called before, and that
the provider had granted. -/
def OpenedIn (steps : List State) (file : OpenFile) : Prop :=
  ∃ before x after key tag, steps = before ++ x :: after ∧
    x.Opens key file.path file.mode tag file.id ∧ key.id = file.openedBy ∧
    Granted before (.openFile file.path file.mode) tag key

theorem OpenedIn.concat (h : OpenedIn steps file) (x : State) : OpenedIn (steps ++ [x]) file := by
  obtain ⟨before, y, after, key, tag, rfl, opens⟩ := h
  exact ⟨before, y, after ++ [x], key, tag, by simp, opens⟩

/-- A file that is open after a step was so before, marks aside, or the step has recorded it. -/
theorem mem_or_opens_of_step (hs : s.Sane) (kept : s.Kept) (step : s.step = some t)
    (mem : file ∈ t.openFiles) : file.unmarked ∈ s.openFiles.map OpenFile.unmarked ∨
      ∃ key tag, s.Opens key file.path file.mode tag file.id ∧ key.id = file.openedBy := by
  cases alive : s.there with
  | true =>
    cases (filing_of_step hs alive (kept.not_mem_closeFiles alive) step).outcome with
    | same _ _ files => exact .inl (files ▸ List.mem_map_of_mem mem)
    | @record key path mode tag new opens path_eq mode_eq opener files =>
      rcases List.mem_cons.1 (files.mem_iff.1 mem) with rfl | old
      · subst path_eq mode_eq
        exact .inr ⟨key, tag, opens, opener.symm⟩
      · exact .inl (List.mem_map_of_mem old)
    | forget _ files =>
      rw [files] at mem
      exact .inl (List.mem_map_of_mem (List.mem_filter.1 mem).1)
  | false =>
    cases stowing_of_step hs alive step with
    | same files => exact .inl (files ▸ List.mem_map_of_mem mem)
    | close files =>
      rw [files] at mem
      split at mem
      · exact .inl (List.mem_map_of_mem (List.mem_filter.1 mem).1)
      · rw [← OpenFiles.unmarked_mark]
        exact .inl (List.mem_map_of_mem mem)
    | clear files =>
      rw [files] at mem
      cases mem

theorem Course.openedIn (start : Start s₀) (course : Course s₀ steps u)
    (mem : file ∈ u.openFiles) : OpenedIn steps file := by
  induction course generalizing file with
  | start => cases start <;> cases mem
  | @work steps u t course step fair ih =>
    rcases mem_or_opens_of_step (course.sane start) (course.kept start) step mem with
      old | ⟨key, tag, opens, own⟩
    · obtain ⟨before, there, same⟩ := List.mem_map.1 old
      -- Marks do not matter to where a file comes from.
      have opened := ih there
      change OpenedIn steps before.unmarked at opened
      rw [same] at opened
      exact opened.concat u
    · exact ⟨steps, u, [], key, tag, rfl, opens, own, course.granted_of_opens start opens⟩
  | call _ _ _ ih => exact ih mem
  | rewind _ _ ih => exact ih mem

/-! ## A file that is being closed -/

/-- What is outstanding under the key of a request that was outstanding before is that request. -/
theorem Course.continues_of_mem (start : Start s₀) (fromW : Course w after u)
    (toW : Course s₀ before w) (entry : w.trace q.key = { outstanding := [q] })
    (mem : p ∈ u.ledger.entries) (own : p.key = q.key) : q.Continues p := by
  have known := ((toW.fate start q.key).of_mem
    (mem_of_trace (congrArg Trace.outstanding entry)).1).1
  exact fromW.reaches.continues (toW.sane start) known entry
    (own ▸ findExact?_of_mem ((toW.trans fromW).sane start).accounted mem)

/-- A file stays in the table while a close of it is under way. -/
theorem Next.holds_of_closing (hn : Next s t) (hs : s.Sane) (kept : s.Kept) (alive : t.there)
    (fate : ∀ key, s.Fate key) (closing : (s.trace key).Closing id)
    (still : (t.trace key).Closing id) (holds : s.Holds id path mode opener) :
    t.Holds id path mode opener := by
  have alive' := hn.there_of_there hs alive
  cases hn with
  | work step fair =>
    cases (filing_of_step hs alive' (kept.not_mem_closeFiles alive') step).outcome with
    | same _ _ files =>
      rw [holds_iff_unmarked, files, ← holds_iff_unmarked]
      exact holds
    | record _ _ _ _ files => exact (holds_of_record files).2 (.inl holds)
    | @forget other closed closes files =>
      refine (holds_of_forget files).2 ⟨holds, ?_⟩
      -- The close that takes the file out is the only one, and it is under way no longer.
      rintro rfl
      have same := kept.single alive' key other id closing (closes.closing (fate other))
      obtain ⟨⟨tag, value, followUp, rest, done⟩, -⟩ := closes.forgotten step
      exact not_closing_of_done done (same ▸ still)
  | call | rewind => exact holds

theorem Course.holds_of_closing (start : Start s₀) (toW : Course s₀ before w)
    (known : key.serial < w.ledger.nextSerial) (fromW : Course w after x) (alive : x.there)
    (closing : (x.trace key).Closing id) (holds : w.Holds id path mode opener) :
    x.Holds id path mode opener := by
  -- A step of the run that leaves a close under way had it under way before.
  have next : ∀ {steps s t}, Course w steps s → Next s t → t.there → (t.trace key).Closing id →
      (s.there → (s.trace key).Closing id → s.Holds id path mode opener) →
      t.Holds id path mode opener := by
    intro steps s t toS hn alive closing ih
    have whole := toW.trans toS
    have sane := whole.sane start
    rcases hn.closing_or_starts sane (whole.fate start key) closing with
      before | ⟨tag, followUp, starts⟩
    · exact hn.holds_of_closing sane (whole.kept start) alive (whole.fate start) before closing
        (ih (hn.there_of_there sane alive) before)
    · obtain ⟨self, p, rfl, bears, -⟩ := starts.exists_bears sane (whole.fate start key)
      have serial : p.key.serial = s.ledger.nextSerial := (bears.serial sane).1
      have le := toS.reaches.nextSerial_le (toW.sane start)
      omega
  induction fromW with
  | start => exact holds
  | work toS step fair ih => exact next toS (.work step fair) alive closing ih
  | call toS call self ih => exact next toS (.call call self) alive closing ih
  | rewind toS n ih => exact next toS (.rewind n) alive closing ih

/-- A close that is still outstanding as it is handed over names the opener of a file that is open,
and marked. -/
theorem Course.marked_of_handOver (start : Start s₀) (course : Course s₀ steps x)
    (ahead : .handOver key (.closeFile opener) ∈ x.agenda) (alive : x.there)
    (outstanding : (x.ledger.findExact? key).isSome) :
    ∃ file ∈ x.openFiles, file.openedBy = opener ∧ file.closing := by
  obtain ⟨first, v, last, w, rfl, dispatches⟩ := course.exists_dispatches start ahead
  obtain ⟨operation, tag, followUp, m, starts, held, request⟩ := dispatches.starts
  obtain ⟨id, rfl, file, mem, own, opened⟩ := Operation.exists_closeFile_of_request request
  obtain ⟨toV, fair, fromW⟩ := course.split_of_step starts.step
  have toW := toV.work starts.step fair
  obtain ⟨_, p, rfl, bears, owner⟩ := starts.exists_bears (toV.sane start) (toV.fate start key)
  have known := bears.known (toV.sane start)
  have holds : w.Holds id file.path file.mode opener := by
    obtain ⟨-, -, -, -, -, -, -, files⟩ := starts.accepted (toV.sane start)
    rw [holds_iff_unmarked, files, filesAfter, OpenFiles.unmarked_mark,
      openFiles_of_mount (mount_of_heldMount? held)]
    exact ⟨file.unmarked, List.mem_map_of_mem mem, own, rfl, rfl, opened⟩
  have closing : (x.trace p.key).Closing id := by
    obtain ⟨q, found⟩ := Option.isSome_iff_exists.1 outstanding
    obtain ⟨mem, same⟩ := mem_of_findExact? found
    have waits := (fromW.continues_of_mem start toW bears.after mem same).owner
    rw [owner] at waits
    obtain ⟨parts, waits⟩ := waits.of_operation
    rw [Operation.expectation, collectAll_of_whole rfl] at waits
    rw [← same, ((course.fate start q.key).of_mem mem).2]
    exact .outstanding waits
  obtain ⟨other, mem', same, marked⟩ := (course.kept start).marked alive p.key id closing
  obtain ⟨still, mem, own, -, -, opened⟩ :=
    toW.holds_of_closing start known fromW alive closing holds
  obtain rfl := (course.sane start).accounted.eq_of_handle mem mem' (same.trans own.symm)
  exact ⟨other, mem, opened, marked⟩

/-! ## What is handed over -/

/-- What was handed over was so by a step of the run. -/
theorem Course.exists_handOver {shown : Bool} (start : Start s₀) (course : Course s₀ steps u)
    (told : .handedOver key content shown ∈ u.history) : ∃ before x after rest,
      steps = before ++ x :: after ∧ x.agenda = .handOver key content :: rest := by
  induction course with
  | start =>
    cases start with
    | manager => cases told
    | mount => simp [ofMount, note, emit] at told
  | @work steps u t course step fair ih =>
    obtain ⟨task, rest, ha, deed⟩ := (course.sane start).exists_deed step
    rcases deed.records told with old | records | ⟨p, reply, tag, -, -, part⟩
    · obtain ⟨before, x, after, rest, rfl, first⟩ := ih old
      exact ⟨before, x, after ++ [u], rest, by simp, first⟩
    · cases records with
      | calm calm => cases calm
      | handedOver => exact ⟨steps, u, [], rest, rfl, ha⟩
    · cases part
  | call _ _ _ ih => exact ih told
  | rewind _ _ ih => exact ih told

/-- The description of a mount stays as it was. -/
theorem Reaches.settings_eq {m : Mount}
    (reached : Reaches (ofMount settings link timersRun firstId horizon) u)
    (held : u.heldMount? = some m) : m.settings = settings := by
  have start : Start (ofMount settings link timersRun firstId horizon) := .mount ..
  have same := reached.settings? start.sane.upkeep
  rw [State.settings?, mount_of_heldMount? held] at same
  exact Option.some.inj same

theorem Course.allowed_of_handOver
    (course : Course (ofMount settings link timersRun firstId horizon) steps x)
    (ahead : .handOver key content ∈ x.agenda) :
    ∃ first v last w, steps = first ++ v :: last ∧ v.Dispatches w key content ∧
      content.Allowed settings.info fun file =>
        file ∈ v.openFiles ∧ file.closing = false ∧ OpenedIn first file := by
  have start : Start (ofMount settings link timersRun firstId horizon) := .mount ..
  obtain ⟨first, v, last, w, rfl, dispatches⟩ := course.exists_dispatches start ahead
  obtain ⟨operation, tag, followUp, m, -, held, request⟩ := dispatches.starts
  obtain ⟨-, toV, -⟩ := course.split
  refine ⟨first, v, last, w, rfl, dispatches, ?_⟩
  rw [← toV.reaches.settings_eq held]
  refine (Operation.allowed_of_request request).2.mono fun file ⟨mem, usable⟩ => ?_
  rw [← openFiles_of_mount (mount_of_heldMount? held)] at mem
  exact ⟨mem, usable, toV.openedIn start mem⟩

/-- A file that is open for writing was allowed to be. -/
theorem Course.writable_of_mem
    (course : Course (ofMount settings link timersRun firstId horizon) steps u)
    (mem : file ∈ u.openFiles) (writes : file.mode.canWrite) : settings.info.writable := by
  have start : Start (ofMount settings link timersRun firstId horizon) := .mount ..
  obtain ⟨before, x, after, key, tag, rfl, -, -, ⟨v, called, w, followUp, starts⟩, -⟩ :=
    course.openedIn start mem
  obtain ⟨-, -, -, toV, -⟩ := course.reaches_of_mem (List.mem_append_left _ called)
  obtain ⟨-, m, content, -, -, held, request, -⟩ := starts.accepted (toV.sane start.sane)
  rw [← toV.settings_eq held]
  exact (Operation.openFile_of_request request).2 writes

/-- An outstanding request that an operation waits for is what the operation became when it was
accepted. -/
theorem Course.exists_request (start : Start s₀) (course : Course s₀ steps u)
    (mem : p ∈ u.ledger.entries) (facade : p.owner.isOperation) :
    ∃ operation v m content, Reaches s₀ v ∧ v.heldMount? = some m ∧
      Operation.request m.settings.info m.mounted m.files operation = .ok content ∧
      p.kind = content.kind ∧ ∃ tag followUp parts,
        p.owner = .operation (operation.expectation.collectAll parts) tag followUp := by
  have shows : u.trace p.key ≠ {} := by
    rw [((course.fate start p.key).of_mem mem).2]
    simp
  obtain ⟨before, v, after, w, task, q, rfl, bears, own, toW, fromW⟩ :=
    course.exists_bears start shows
  obtain ⟨-, -, -, toV, -⟩ := course.reaches_of_mem (x := v) (by simp)
  have same := fromW.continues_of_mem start toW bears.after mem own.symm
  rw [same.owner.isOperation_eq] at facade
  obtain ⟨operation, tag, followUp, parts, starts, owner⟩ := bears.starts facade (toW.sane start)
  obtain ⟨m, content, held, request, kind⟩ := bears.request_of_starts starts (toV.sane start.sane)
  have waits := same.owner
  rw [owner] at waits
  obtain ⟨more, waits⟩ := waits.of_operation
  refine ⟨operation, v, m, content, toV, held, request, same.kind.trans kind, tag, followUp,
    parts ++ more, ?_⟩
  rw [waits, Expectation.collectAll, Expectation.collectAll, Expectation.collectAll,
    List.foldl_append]

/-- An outstanding request that changes contents was allowed to. -/
theorem Course.writable_of_outstanding
    (course : Course (ofMount settings link timersRun firstId horizon) steps u)
    (mem : p ∈ u.ledger.entries) (facade : p.owner.isOperation)
    (changes : p.kind.changesContents) : settings.info.writable := by
  obtain ⟨operation, v, m, content, toV, held, request, kind, -⟩ :=
    course.exists_request (.mount ..) mem facade
  rw [← toV.settings_eq held]
  exact (Operation.allowed_of_request request).2.writable (kind ▸ changes)

/-- What the provider of a mount is handed, in a run that takes some steps. -/
structure Authorised (settings : MountSettings) (steps : List State) (u : State) : Prop where
  /-- What was handed over was so by a step of the run. -/
  handed : ∀ key content shown, .handedOver key content shown ∈ u.history →
    ∃ before x after rest, steps = before ++ x :: after ∧
      x.agenda = .handOver key content :: rest
  /-- What a step hands over is the request of an operation that was accepted before, and that the
  mount allowed then.  A file that the request is about was open, and not being closed; it had been
  recorded for an open that the provider had granted, under the id that the request names. -/
  allowed : ∀ before x after key content rest, steps = before ++ x :: after →
    x.agenda = .handOver key content :: rest →
    ∃ first v last w, before = first ++ v :: last ∧ v.Dispatches w key content ∧
      content.Allowed settings.info fun file =>
        file ∈ v.openFiles ∧ file.closing = false ∧ OpenedIn first file
  /-- Unless it has ended in between, or the mount is gone or down, the file of a close is still
  open as the close is handed over, and marked. -/
  closing : ∀ before x after key opener rest, steps = before ++ x :: after →
    x.agenda = .handOver key (.closeFile opener) :: rest → x.there →
    (x.ledger.findExact? key).isSome → ∃ file ∈ x.openFiles, file.openedBy = opener ∧ file.closing
  /-- If the mount may not be written to, files are open for reading only, and no operation is under
  way that changes contents. -/
  readOnly : settings.info.writable = false → (∀ file ∈ u.openFiles, file.mode = .read) ∧
    ∀ p ∈ u.ledger.entries, p.owner.isOperation → p.kind.changesContents = false

/-- For every run of a mount, whatever the provider replies and whatever is called in the middle of
another call: only requests that the mount allows reach the provider. -/
theorem requests_authorised
    (course : Course (ofMount settings link timersRun firstId horizon) steps u) :
    Authorised settings steps u := by
  have start : Start (ofMount settings link timersRun firstId horizon) := .mount ..
  constructor
  case handed =>
    intro key content shown told
    exact course.exists_handOver start told
  case allowed =>
    rintro before x after key content rest rfl ahead
    obtain ⟨-, toX, -⟩ := course.split
    exact toX.allowed_of_handOver (ahead ▸ List.mem_cons_self)
  case closing =>
    rintro before x after key opener rest rfl ahead alive outstanding
    obtain ⟨-, toX, -⟩ := course.split
    exact toX.marked_of_handOver start (ahead ▸ List.mem_cons_self) alive outstanding
  case readOnly =>
    intro sealed
    constructor
    · intro file mem
      have writes : ¬ file.mode.canWrite := by
        intro writes
        rw [course.writable_of_mem mem writes] at sealed
        cases sealed
      cases mode : file.mode with
      | read => rfl
      | write | readWrite => exact (writes (by rw [mode]; rfl)).elim
    · intro p mem facade
      by_contra changes
      rw [course.writable_of_outstanding mem facade (by simpa using changes)] at sealed
      cases sealed

/-- A file is opened for reading and writing, and written to.  What the provider is handed names
the request that opened the file. -/
theorem requests_authorised_of_write :
    ∃ steps u key first file, Course (ofMount
        { info := { providerId := "p", fileSystemId := "f", displayName := "d", writable := true } }
        (.direct {}) true) steps u ∧
      .handedOver key (.writeFile ⟨1⟩ 0 [7]) true ∈ u.history ∧
      first <+: steps ∧ OpenedIn first file ∧ file.openedBy = ⟨1⟩ ∧ file.mode.canWrite := by
  obtain ⟨u, event, hu, recorded, rfl⟩ : ∃ u event, (ofMount
      { info := { providerId := "p", fileSystemId := "f", displayName := "d", writable := true } }
      (.direct {}) true).follow?
        (.call (.operate (.openFile "/a" .readWrite) none []) ⟨0⟩ :: List.replicate 7 .work ++
          .call (.deliver (.given ⟨1⟩) (.success .nothing)) ⟨0⟩ :: List.replicate 8 .work ++
          .call (.operate (.writeData ⟨2⟩ 0 [7]) none []) ⟨0⟩ :: List.replicate 3 .work) = some u ∧
      u.history.head? = some event ∧ event = .handedOver ⟨⟨3⟩, 2⟩ (.writeFile ⟨1⟩ 0 [7]) true :=
    ⟨_, _, rfl, rfl, rfl⟩
  have told := List.mem_of_mem_head? recorded
  have law := requests_authorised (course_of_follow? hu)
  obtain ⟨before, x, after, rest, cut, ahead⟩ := law.handed _ _ _ told
  obtain ⟨first, v, last, w, rfl, -, -, file, ⟨-, -, opened⟩, opener, writes⟩ :=
    law.allowed _ _ _ _ _ _ cut ahead
  refine ⟨_, u, _, first, file, course_of_follow? hu, told, ?_, opened, opener, writes⟩
  exact ⟨_, by rw [cut, List.append_assoc]⟩

end State

end FileRelay
