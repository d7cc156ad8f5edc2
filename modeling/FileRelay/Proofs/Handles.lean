import FileRelay.Proofs.Registry

/-!
# Handles of open files

The caller of an open is told the handle of the file when it is in the table and may be used,
and the caller of a close is told of its success when the file is gone; and they are told so
for just those files that were recorded and taken out.
-/

namespace FileRelay.State

variable {s₀ s t u v w x : State} {key : RequestKey} {path : String} {mode : OpenMode}
  {tag : Option String} {id : HandleId} {p q : Pending} {ending : Ending}
  {rest : List Task} {followUp : List Call} {steps before after : List State}
  {settings : MountSettings} {link : Link} {timersRun : Bool} {firstId : UInt32} {horizon : Nat}

/-- In some steps an operation was called under a given key, and granted by the provider. -/
def Granted (steps : List State) (operation : Operation) (tag : Option String)
    (key : RequestKey) : Prop :=
  (∃ v ∈ steps, ∃ w followUp, v.Starts w operation tag followUp key) ∧
    ∃ x ∈ steps, ∃ y p, p.key = key ∧ x.Ends y p (.completed .nothing)

/-! ## What a caller is told -/

theorem resolve_ne_file (expects : Expectation) (last : Reply) :
    expects.resolve last ≠ .ok (.file id) := by
  intro h
  cases expects with
  | listing soFar => cases soFar <;> cases last <;> cases h
  | data soFar => cases soFar <;> cases last <;> cases h
  | _ => cases last <;> cases h

/-- A handle is given only for a file that was granted to be opened. -/
theorem file_of_gives {expects : Expectation} (h : expects.Gives ending (.ok (.file id))) :
    ending = .completed .nothing ∧ ∃ path mode, expects = .file path mode := by
  by_cases opening : ∃ path mode, expects = .file path mode
  · obtain ⟨path, mode, rfl⟩ := opening
    refine ⟨?_, path, mode, rfl⟩
    cases ending with
    | completed reply => cases reply <;> first | rfl | cases h
    | rejected | aborted | timedOut | shutDown => cases h
  · have resolved : .ok (.file id) = ending.result >>= fun reply => expects.resolve reply := by
      cases expects with
      | file path mode => exact (opening ⟨path, mode, rfl⟩).elim
      | _ => exact h
    cases ending with
    | completed reply => exact (resolve_ne_file expects reply resolved.symm).elim
    | rejected | aborted | timedOut | shutDown => cases resolved

/-- Success of a close is told only if it was granted. -/
theorem fits_of_gives {value : Value} (h : (Expectation.closing id).Gives ending (.ok value)) :
    ending = .completed .nothing := by
  cases ending with
  | completed reply => cases reply <;> first | rfl | cases h
  | rejected | aborted | timedOut | shutDown => cases h

/-- A callback that is next and owed is the one that shows. -/
theorem eq_of_owed {task x : Task} (ha : s.agenda = task :: rest) (owed : task.owed? = some key)
    (shows : s.trace key = { owed := [x] }) : task = x := by
  have first := congrArg Trace.owed shows
  rw [trace, ha, List.filter_cons_of_pos (by simpa using owed)] at first
  exact (List.cons.inj first).1

/-- Whoever is told the handle of a file is told so as the file is recorded. -/
theorem Next.opens_of_told (hn : Next s t) (hs : s.Sane) (fate : s.Fate key)
    (not_yet : ¬ (s.trace key).Told key tag (.ok (.file id)))
    (told : (t.trace key).Told key tag (.ok (.file id))) :
    s.step = some t ∧ ∃ path mode, s.Opens key path mode tag id := by
  obtain ⟨p, ending, rest, expects, followUp, ha, rfl, owner, gives, step, shows⟩ :=
    hn.exists_complete hs fate not_yet told
  obtain ⟨rfl, path, mode, rfl⟩ := file_of_gives gives
  refine ⟨step, path, mode, ?_⟩
  rw [step_of_agenda ha, Option.some.injEq] at step
  change ({ s with agenda := rest } : State).complete p (.completed .nothing) = t at step
  rcases complete_of_file { s with agenda := rest } owner with
    ⟨m, id', files, pool, hm, mounted, added, completed⟩ | ⟨-, -, again⟩ | ⟨-, notice, refused⟩
  · have alive := there_of_mount? hm mounted
    rw [there_of_pop ha rfl] at alive
    have same := eq_of_owed (by rw [← step, completed]; rfl) rfl shows
    cases same
    exact ⟨alive, ⟨p, followUp, rest, ha, rfl, owner⟩, OpenFiles.drawn_of_add? added⟩
  · have same := eq_of_owed (by rw [← step, again]; rfl) rfl shows
    cases same
  · have same := eq_of_owed (by rw [← step, refused]; rfl) rfl shows
    cases same

/-! ## A run -/

section run

variable (start : Start s₀)
include start

/-- A request that is to be completed has ended, from the time on that it was outstanding. -/
theorem Course.ended_of_complete (course : Course s₀ before v) (fromV : Course v after u)
    (entry : v.trace q.key = { outstanding := [q] }) (ha : u.agenda = .complete p ending :: rest)
    (own : p.key = q.key) : q.Continues p ∧ ∃ x ∈ after, ∃ y, x.Ends y p ending := by
  have whole : Course s₀ (before ++ after) u := course.trans fromV
  obtain ⟨owed, -⟩ := (whole.fate start q.key).carries ha (congrArg some own)
  obtain ⟨known, -⟩ := (course.fate start q.key).of_mem
    (mem_of_trace (congrArg Trace.outstanding entry)).1
  rcases fromV.life (course.sane start) known entry with ⟨r, -, still⟩ |
    ⟨first, x, last, y, r, ending', rfl, -, ends, -, same, -, settled⟩ | ⟨-, -, nothing⟩
  · rw [owed] at still
    cases still
  · rw [owed] at settled
    cases settled with
    | owed carries =>
      cases carries
      exact ⟨same, x, by simp, y, ends⟩
  · rw [owed] at nothing
    cases nothing

/-- The request that is completed for the caller of an operation goes back to the call of the
operation, and to the step that ended it. -/
theorem Course.exists_starts {expects : Expectation} (course : Course s₀ steps u)
    (ha : u.agenda = .complete p ending :: rest)
    (owner : p.owner = .operation expects tag followUp) (whole : expects.streams = false) :
    (∃ v ∈ steps, ∃ w operation, v.Starts w operation tag followUp p.key ∧
      operation.expectation = expects) ∧
    ∃ x ∈ steps, ∃ y, x.Ends y p ending := by
  have shows : u.trace p.key ≠ {} := by
    rw [((course.fate start p.key).carries ha rfl).1]
    simp
  obtain ⟨before, v, after, w, task, q, rfl, born, own, toW, fromW⟩ :=
    course.exists_bears start shows
  obtain ⟨same, x, mem, y, ends⟩ := toW.ended_of_complete start fromW born.after ha own.symm
  have waits := same.owner
  rw [owner] at waits
  have ho := eq_of_continues whole waits
  obtain ⟨operation, tag', followUp', parts, starts, collected⟩ :=
    born.starts (by rw [ho]; rfl) (toW.sane start)
  rw [ho, Owner.operation.injEq] at collected
  obtain ⟨collected, rfl, rfl⟩ := collected
  refine ⟨⟨v, by simp, w, operation, own ▸ starts, eq_of_collectAll collected.symm whole⟩,
    x, by simp [mem], y, ends⟩

/-- A callback that tells of an open goes back to the step that recorded the file. -/
theorem Course.opens_of_done (course : Course s₀ steps x)
    (ha : x.agenda = .done key tag (.ok (.file id)) followUp :: rest) :
    ∃ before r after y path mode, steps = before ++ r :: after ∧ r.Opens key path mode tag id ∧
      Course s₀ before r ∧ r.step = some y ∧ Course s₀ (before ++ [r]) y ∧ Course y after x := by
  have nothing : s₀.trace key = {} := by cases start <;> rfl
  have not_yet : ¬ (s₀.trace key).Told key tag (.ok (.file id)) := by
    rw [nothing]
    exact nofun
  have told : (x.trace key).Told key tag (.ok (.file id)) := by
    rw [((course.fate start key).carries ha rfl).1]
    exact .owed followUp
  obtain ⟨before, r, after, y, cut, toR, next, toY, fromY, not_yet, told⟩ :=
    course.exists_turn not_yet told
  obtain ⟨step, path, mode, opens⟩ :=
    next.opens_of_told (toR.sane start) (toR.fate start key) not_yet told
  exact ⟨before, r, after, y, path, mode, cut, opens, toR, step, toY, fromY⟩

/-- A callback that tells the caller of an operation its result goes back to the step that
completed the operation, which comes after the call. -/
theorem Course.completed_of_starts {operation : Operation} {tag' : Option String}
    {followUp' : List Call} {result : Except Failure Value} (toV : Course s₀ before v)
    (starts : v.Starts w operation tag followUp key) (fair : ¬ v.Trespasses)
    (fromW : Course w steps x) (ha : x.agenda = .done key tag' result followUp' :: rest) :
    ∃ first r last y p ending parts rest', steps = first ++ r :: last ∧ Course w first r ∧
      r.step = some y ∧ Course y last x ∧ r.agenda = .complete p ending :: rest' ∧ p.key = key ∧
      p.owner = .operation (operation.expectation.collectAll parts) tag followUp ∧
      (operation.expectation.collectAll parts).Gives ending result := by
  obtain ⟨self, q, rfl, born, owner⟩ :=
    starts.exists_bears (toV.sane start) (toV.fate start key)
  have toW : Course s₀ (before ++ [v]) w := toV.work starts.step fair
  have whole : Course s₀ (before ++ [v] ++ steps) x := toW.trans fromW
  have told : (x.trace q.key).Told q.key tag' result := by
    rw [((whole.fate start q.key).carries ha rfl).1]
    exact .owed followUp'
  have not_yet : ¬ (w.trace q.key).Told q.key tag' result := by
    rw [born.after]
    exact nofun
  obtain ⟨first, r, last, y, rfl, toR, next, -, fromY, not_yet, told⟩ :=
    fromW.exists_turn not_yet told
  have fromStart : Course s₀ (before ++ [v] ++ first) r := toW.trans toR
  obtain ⟨p, ending, rest', expects, followUp'', hr, own, owner', gives, step, -⟩ :=
    next.exists_complete (fromStart.sane start) (fromStart.fate start q.key) not_yet told
  obtain ⟨same, -⟩ := toW.ended_of_complete start toR born.after hr own
  have waits := same.owner
  rw [owner] at waits
  obtain ⟨parts, waits⟩ := waits.of_operation
  rw [waits] at owner'
  cases owner'
  exact ⟨first, r, last, y, p, ending, parts, rest', rfl, toR, step, fromY, hr, own, waits, gives⟩

/-- A callback that tells the caller of a close its result goes back to the step that completed
the close, which comes after the call. -/
theorem Course.completed_of_done {result : Except Failure Value} (course : Course s₀ steps x)
    (called : Called steps id key) (ha : x.agenda = .done key tag result followUp :: rest) :
    ∃ before r after y p ending tag' followUp' rest', steps = before ++ r :: after ∧
      Called before id key ∧ Course s₀ before r ∧ r.step = some y ∧
      Course s₀ (before ++ [r]) y ∧ Course y after x ∧ r.agenda = .complete p ending :: rest' ∧
      p.key = key ∧ p.owner = .operation (.closing id) tag' followUp' ∧
      (Expectation.closing id).Gives ending result := by
  obtain ⟨v, mem, w, tag', followUp', starts⟩ := called
  obtain ⟨first, last, rfl⟩ := List.append_of_mem mem
  obtain ⟨toV, fair, fromW⟩ := course.split_of_step starts.step
  obtain ⟨before, r, after, y, p, ending, parts, rest', rfl, toR, stepR, fromY, hr, own, owner,
    gives⟩ := toV.completed_of_starts start starts fair fromW ha
  have toW : Course s₀ (first ++ [v]) w := toV.work starts.step fair
  have fromStart : Course s₀ (first ++ v :: before) r := by simpa using toW.trans toR
  obtain ⟨y', -, stepR', fairR, -⟩ := fromW.split
  rw [Operation.expectation, collectAll_of_whole rfl] at owner gives
  exact ⟨first ++ v :: before, r, after, y, p, ending, _, _, rest', by simp,
    ⟨v, by simp, w, _, _, starts⟩, fromStart, stepR, fromStart.work stepR fairR, fromY, hr, own,
    owner, gives⟩

/-- A callback that tells of the success of a close goes back to the step that took the file
out. -/
theorem Course.closes_of_done {value : Value} (course : Course s₀ steps x)
    (called : Called steps id key) (ha : x.agenda = .done key tag (.ok value) followUp :: rest) :
    ∃ before r after, steps = before ++ r :: after ∧ Called before id key ∧ r.Closes key id := by
  obtain ⟨before, r, after, -, p, ending, tag', followUp', rest', cut, called, -, -, -, -, hr, own,
    owner, gives⟩ := course.completed_of_done start called ha
  cases fits_of_gives gives
  exact ⟨before, r, after, cut, called, p, tag', followUp', rest', hr, own, owner⟩

/-- A file is recorded for an open that was called, and that the provider has granted. -/
theorem Course.granted_of_opens (course : Course s₀ steps x)
    (opens : x.Opens key path mode tag id) : Granted steps (.openFile path mode) tag key := by
  obtain ⟨p, followUp, rest, ha, rfl, owner⟩ := opens.first
  obtain ⟨⟨v, mem, w, operation, starts, waits⟩, z, mem', y, ends⟩ :=
    course.exists_starts start ha owner rfl
  cases operation with
  | openFile =>
    cases waits
    exact ⟨⟨v, mem, w, followUp, starts⟩, z, mem', y, p, rfl, ends⟩
  | _ => cases waits

/-- A file is taken out for a close that was called, and that the provider has granted. -/
theorem Course.granted_of_closes (course : Course s₀ steps x) (closes : x.Closes key id) :
    ∃ tag, Granted steps (.closeFile id) tag key := by
  obtain ⟨p, tag, followUp, rest, ha, rfl, owner⟩ := closes
  obtain ⟨⟨v, mem, w, operation, starts, waits⟩, z, mem', y, ends⟩ :=
    course.exists_starts start ha owner rfl
  cases operation with
  | closeFile =>
    cases waits
    exact ⟨tag, ⟨v, mem, w, followUp, starts⟩, z, mem', y, p, rfl, ends⟩
  | _ => cases waits

end run

/-! ## Consistency -/

/-- What holds of the handles of a mount after a run, told with its steps. -/
structure HandlesConsistent (steps : List State) (s : State) : Prop where
  /-- While the mount is there a file is in the table, under its id and with the path, the mode
  and the request of its open, if and only if it was recorded, and not closed since. -/
  table : s.there → ∀ id path mode opener,
    s.Holds id path mode opener ↔ Registered steps id path mode opener
  /-- A file is recorded for an open that was called and granted; it may be used by the time
  that its caller is told the handle, which is what happens next. -/
  opened : ∀ before x after key path mode tag id, steps = before ++ x :: after →
    x.Opens key path mode tag id → Granted before (.openFile path mode) tag key ∧
    ∃ y, x.step = some y ∧
      (∃ file ∈ y.openFiles, file.id = id ∧ file.path = path ∧ file.mode = mode ∧
        file.openedBy = key.id ∧ file.closing = false) ∧
      ∃ followUp rest, y.agenda = .done key tag (.ok (.file id)) followUp :: rest
  /-- A file is taken out for a close that was called and granted; it is gone by the time that
  the caller of the close is told so, which is what happens next. -/
  closed : ∀ before x after key id, steps = before ++ x :: after → x.Closes key id →
    (∃ tag, Granted before (.closeFile id) tag key) ∧
    ∃ y, x.step = some y ∧
      (∃ tag value followUp rest, y.agenda = .done key tag (.ok value) followUp :: rest) ∧
      ∀ m, y.mount? = some m → ∀ file ∈ m.files.files, file.id ≠ id
  /-- Whoever is told a handle is so for a file that was recorded.  Unless a close of the file
  is called in between, or the mount goes away, it is there and may be used. -/
  told_open : ∀ before x after key tag id followUp rest, steps = before ++ x :: after →
    x.agenda = .done key tag (.ok (.file id)) followUp :: rest →
    ∃ first r last path mode, before = first ++ r :: last ∧ r.Opens key path mode tag id ∧
      (x.there → (∀ other, ¬ Called last id other) →
        ∃ file ∈ x.openFiles, file.id = id ∧ file.path = path ∧ file.mode = mode ∧
          file.openedBy = key.id ∧ file.closing = false)
  /-- Whoever is told of the success of a close is so for a close that was granted.  Unless a
  file is recorded under the id in between, there is none. -/
  told_close : ∀ before x after key tag id value followUp rest, steps = before ++ x :: after →
    Called before id key → x.agenda = .done key tag (.ok value) followUp :: rest →
    ∃ first r last, before = first ++ r :: last ∧ Called first id key ∧ r.Closes key id ∧
      (x.there → (∀ z ∈ last, ∀ other path mode tag, ¬ z.Opens other path mode tag id) →
        ∀ file ∈ x.openFiles, file.id ≠ id)
  /-- Nothing else that a mount does puts a file in or takes one out. -/
  step : s.there → ∀ t, s.step = some t → Outcome s t

/-- In every run of a mount its handles are consistent: with the opens and closes that were
granted, and with what the callers are told. -/
theorem handles_consistent
    (course : Course (ofMount settings link timersRun firstId horizon) steps s) :
    HandlesConsistent steps s := by
  have start : Start (ofMount settings link timersRun firstId horizon) :=
    .mount settings link timersRun firstId horizon
  constructor
  case table =>
    intro alive id path mode opener
    exact course.holds_iff start rfl alive
  case opened =>
    rintro before x after key path mode tag id rfl opens
    obtain ⟨y, toX, step, -⟩ := course.split
    obtain ⟨file, next⟩ := opens.recorded (toX.sane start) (toX.kept start) step
    exact ⟨toX.granted_of_opens start opens, y, step, file, next⟩
  case closed =>
    rintro before x after key id rfl closes
    obtain ⟨y, toX, step, -⟩ := course.split
    exact ⟨toX.granted_of_closes start closes, y, step, closes.forgotten step⟩
  case told_open =>
    rintro before x after key tag id followUp rest rfl told
    obtain ⟨-, toX, -⟩ := course.split
    obtain ⟨first, r, last, y, path, mode, rfl, opens, toR, step, toY, fromY⟩ :=
      toX.opens_of_done start told
    refine ⟨first, r, last, path, mode, rfl, opens, ?_⟩
    intro alive idle
    obtain ⟨⟨file, mem, rfl, data, mode_eq, opener, usable⟩, -⟩ :=
      opens.recorded (toR.sane start) (toR.kept start) step
    exact ⟨file, toY.mem_of_idle start fromY alive mem usable idle, rfl, data, mode_eq, opener,
      usable⟩
  case told_close =>
    rintro before x after key tag id value followUp rest rfl called told
    obtain ⟨-, toX, -⟩ := course.split
    obtain ⟨first, r, last, rfl, called', closes⟩ := toX.closes_of_done start called told
    exact ⟨first, r, last, rfl, called', closes,
      fun alive unused => toX.not_holds_of_closes start rfl alive closes unused⟩
  case step =>
    intro alive t step
    exact (filing_of_step (course.sane start) alive
      ((course.kept start).not_mem_closeFiles alive) step).outcome

/-- Two files are opened, and the first is closed: only the second is registered. -/
theorem handles_consistent_of_two :
    ∃ steps s, Course (ofMount
        { info := { providerId := "p", fileSystemId := "f", displayName := "d" } }
        (.direct {}) true) steps s ∧ s.there ∧
      Registered steps ⟨4⟩ "/b" .read ⟨3⟩ ∧ ¬ Registered steps ⟨2⟩ "/a" .read ⟨1⟩ := by
  have run : ((ofMount { info := { providerId := "p", fileSystemId := "f", displayName := "d" } }
      (.direct {}) true).follow?
        (.call (.operate (.openFile "/a" .read) none []) ⟨0⟩ :: List.replicate 7 .work ++
          .call (.deliver (.given ⟨1⟩) (.success .nothing)) ⟨0⟩ :: List.replicate 8 .work ++
          .call (.operate (.openFile "/b" .read) none []) ⟨0⟩ :: List.replicate 7 .work ++
          .call (.deliver (.given ⟨3⟩) (.success .nothing)) ⟨0⟩ :: List.replicate 8 .work ++
          .call (.operate (.closeFile ⟨2⟩) none []) ⟨0⟩ :: List.replicate 7 .work ++
          .call (.deliver (.given ⟨5⟩) (.success .nothing)) ⟨0⟩ :: List.replicate 8 .work)).any
        fun s => s.there && decide (s.Holds ⟨4⟩ "/b" .read ⟨3⟩ ∧ ¬ s.Holds ⟨2⟩ "/a" .read ⟨1⟩) := by
    decide +kernel
  rw [Option.any_eq_true] at run
  obtain ⟨s, hs, run⟩ := run
  rw [Bool.and_eq_true, decide_eq_true_eq] at run
  obtain ⟨alive, second, first⟩ := run
  have table := (handles_consistent (course_of_follow? hs)).table alive
  exact ⟨_, s, course_of_follow? hs, alive, (table ..).1 second, fun h => first ((table ..).2 h)⟩

end FileRelay.State
