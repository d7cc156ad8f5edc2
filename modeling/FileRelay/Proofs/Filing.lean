import FileRelay.Proofs.Deed

/-!
# Opening and closing files

Files enter the table of a mount that is there only as the provider grants to open them, and
leave it only as the provider grants to close them.  A file is recorded in the very step that
brings the callback of its caller up, and in the very step that brings the callback of a close
up the file is taken out.  Besides, a file is marked as long as it is being closed.  A mount
that is gone, or down, does not come back.
-/

namespace FileRelay

/-- A file is recorded under the next free id. -/
theorem OpenFiles.drawn_of_add? {table files : OpenFiles} {pool after : IdPool} {path : String}
    {mode : OpenMode} {openedBy : RequestId} {id : HandleId}
    (h : table.add? pool path mode openedBy = some (id, files, after)) :
    ∃ left, pool.next? = some (id.val, left) := by
  unfold OpenFiles.add? at h
  split at h
  · cases h
  · rename_i drawn
    dsimp only at h
    split at h <;> cases h <;> exact ⟨_, drawn⟩

/-- Only without a free id is a file not recorded. -/
theorem OpenFiles.full_of_add? {table : OpenFiles} {pool : IdPool} {path : String}
    {mode : OpenMode} {openedBy : RequestId} (h : table.add? pool path mode openedBy = none) :
    pool.next? = none := by
  unfold OpenFiles.add? at h
  split at h
  · assumption
  · dsimp only at h
    split at h <;> cases h

namespace State

variable {b s t u : State} {task : Task} {rest : List Task} {p : Pending} {ending : Ending}
  {tag : Option String} {followUp : List Call} {path : String} {mode : OpenMode} {id : HandleId}

/-- Whether the mount is there and up. -/
def there (s : State) : Bool := s.mount?.isSome && s.up

/-- The next step records a file: the provider has granted to open it, and the mount is there.
The file gets the next free id. -/
structure Opens (s : State) (key : RequestKey) (path : String) (mode : OpenMode)
    (tag : Option String) (id : HandleId) : Prop where
  there : s.there
  first : ∃ p followUp rest, s.agenda = .complete p (.completed .nothing) :: rest ∧ p.key = key ∧
    p.owner = .operation (.file path mode) tag followUp
  drawn : ∃ pool, s.pool.next? = some (id.val, pool)

/-- The next step has a file closed: the provider has granted to close it. -/
def Closes (s : State) (key : RequestKey) (id : HandleId) : Prop :=
  ∃ p tag followUp rest, s.agenda = .complete p (.completed .nothing) :: rest ∧ p.key = key ∧
    p.owner = .operation (.closing id) tag followUp

/-- What a step means for the open files. -/
inductive Filing (s t : State) : Prop
  | same (no_open : ∀ key path mode tag id, ¬ s.Opens key path mode tag id)
      (no_close : ∀ key id, ¬ s.Closes key id) (files : t.openFiles = s.openFiles)
  /-- A close is called: its file is marked. -/
  | mark {id : HandleId} {tag : Option String} {followUp : List Call} {self : RequestId}
      {rest : List Task}
      (called : s.agenda = .issue (.operate (.closeFile id) tag followUp) self :: rest)
      (enters : ∃ p, Enters (.issue (.operate (.closeFile id) tag followUp) self) p
        { s with agenda := rest } t)
      (files : t.openFiles = (OpenFiles.mark ⟨s.openFiles⟩ id true).files)
  /-- A file is recorded, under an id that no other has. -/
  | record {key : RequestKey} {path : String} {mode : OpenMode} {tag : Option String}
      {followUp : List Call} {file : OpenFile} {rest : List Task}
      (opens : s.Opens key path mode tag file.id) (path_eq : file.path = path)
      (mode_eq : file.mode = mode) (opener : file.openedBy = key.id)
      (usable : file.closing = false) (files : t.openFiles.Perm (file :: s.openFiles))
      (agenda : t.agenda = .done key tag (.ok (.file file.id)) followUp :: rest)
  /-- A close has come to an end: its file is taken out, or may be used again. -/
  | close {p : Pending} {ending : Ending} {tag : Option String} {followUp : List Call}
      {id : HandleId} {result : Except Failure Value} {rest : List Task}
      (first : s.agenda = .complete p ending :: rest)
      (owner : p.owner = .operation (.closing id) tag followUp)
      (granted : result.toBool ↔ ending = .completed .nothing)
      (files : t.openFiles = if result.toBool then s.openFiles.filter (·.id ≠ id)
        else (OpenFiles.mark ⟨s.openFiles⟩ id false).files)
      (agenda : t.agenda = .done p.key tag result followUp :: rest)

/-! ## A mount does not come back -/

theorem there_of_mount? {m : Mount} (hm : s.mount? = some m) (mounted : m.mounted) : s.there := by
  rw [there, hm, up_of_mount (Option.eq_some_of_filter_eq_some hm), mounted]
  rfl

theorem Effect.inUse_of_inUse (h : Effect b task { b with agenda := rest } t)
    (ha : b.agenda = task :: rest) (hb : b.Backed) (ht : t.mount?.isSome) : b.mount?.isSome := by
  cases h with
  | change quiet stays h =>
    rw [h.stays.2, (stays_of_pop ha stays).2] at ht
    exact ht
  | settle h pass k =>
    rw [k.stays.2, pass.stays.2, h.stays.2, (stays_of_pop ha pass.leaves_eq_false).2] at ht
    exact ht
  | keepManager | dropManager =>
    rw [← ht]
    exact inUse_congr rfl (by rw [ha]; rfl)
  | keepMount | dropMount =>
    have hm := hb.used (by rw [ha]; rfl)
    rw [isSome_mount?, ha]
    revert hm
    cases b.mount <;> simp [Task.leavesMount]

theorem Effect.up_of_up (h : Effect b task { b with agenda := rest } t) (ht : t.up) : b.up := by
  cases h with
  | change _ _ h => exact h.up_of_up ht
  | settle h pass k =>
    have hu := k.up_of_up ht
    rw [State.up, pass.frame.2.2.2.1] at hu
    exact h.up_of_up hu
  | keepManager | dropManager | keepMount | dropMount => exact ht

theorem Next.up_of_up (h : Next s t) (hs : s.Sane) (ht : t.up) : s.up := by
  rcases h.cases hs with ⟨task, rest, ha, -, e⟩ | ⟨-, -, mount, -⟩
  · exact e.up_of_up ht
  · rw [State.up, mount] at ht
    exact ht

theorem Next.inUse_of_inUse (h : Next s t) (hs : s.Sane) (ht : t.mount?.isSome) :
    s.mount?.isSome := by
  cases h with
  | work step fair =>
    obtain ⟨task, rest, ha, e⟩ := hs.upkeep.exists_effect fair step
    exact e.inUse_of_inUse ha hs.upkeep.toBacked ht
  | call call self =>
    have pushed : Change s (.issue call self) s (s.push [.issue call self]) := .again s call self
    rw [← pushed.stays.2]
    exact ht
  | rewind n => exact ht

theorem Next.there_of_there (h : Next s t) (hs : s.Sane) (ht : t.there) : s.there := by
  rw [there, Bool.and_eq_true] at ht ⊢
  exact ⟨h.inUse_of_inUse hs ht.1, h.up_of_up hs ht.2⟩

theorem Course.there_of_there {steps : List State} (course : Course s steps u) (hs : s.Sane)
    (hu : u.there) : s.there := by
  induction course with
  | start => exact hu
  | work course step fair ih =>
    exact ih ((Next.work step fair).there_of_there (course.reaches.sane hs) hu)
  | call course call self ih =>
    exact ih ((Next.call call self).there_of_there (course.reaches.sane hs) hu)
  | rewind course n ih => exact ih ((Next.rewind n).there_of_there (course.reaches.sane hs) hu)

/-! ## The end of an open or a close -/

/-- The provider has granted to open a file: the file is recorded, as long as the mount is
there. -/
theorem complete_of_file (s : State) (owner : p.owner = .operation (.file path mode) tag followUp) :
    (∃ m id files pool, s.mount? = some m ∧ m.mounted ∧
      m.files.add? s.pool path mode p.id = some (id, files, pool) ∧
      s.complete p (.completed .nothing) =
        ({ s with pool, mount := some { m with files } } : State).push
          [.done p.key tag (.ok (.file id)) followUp]) ∨
    (s.there ∧ s.pool.next? = none ∧
      s.complete p (.completed .nothing) = s.push [.complete p (.completed .nothing)]) ∨
    (s.there = false ∧ ∃ notice, s.complete p (.completed .nothing) =
      (s.note notice).push [.done p.key tag (.error .shutdown) followUp]) := by
  have completed : s.complete p (.completed .nothing) =
      (s.registerFile? p.id path mode).elim (s.push [.complete p (.completed .nothing)])
        fun filed => filed.1.push [.done p.key tag filed.2 followUp] := by
    rw [State.complete, owner]
    dsimp only [completeOperation, Ending.result, Expectation.resolve, Expectation.expectNothing,
      bind, Except.bind, pure, Except.pure]
    cases s.registerFile? p.id path mode <;> rfl
  rw [completed, registerFile?]
  cases hm : s.mount? with
  | none =>
    refine .inr (.inr ⟨?_, _, rfl⟩)
    rw [there, hm]
    rfl
  | some m =>
    dsimp only
    by_cases mounted : m.mounted
    · rw [if_pos mounted]
      cases added : m.files.add? s.pool path mode p.id with
      | none => exact .inr (.inl ⟨there_of_mount? hm mounted, OpenFiles.full_of_add? added, rfl⟩)
      | some new => exact .inl ⟨m, new.1, new.2.1, new.2.2, rfl, mounted, added, rfl⟩
    · rw [if_neg mounted]
      refine .inr (.inr ⟨?_, _, rfl⟩)
      rw [there, up_of_mount (Option.eq_some_of_filter_eq_some hm), Bool.and_eq_false_iff]
      exact .inr (by simpa using mounted)

/-- A file that is not granted to be opened is not recorded. -/
theorem complete_of_misfit (s : State)
    (owner : p.owner = .operation (.file path mode) tag followUp)
    (misfit : ending ≠ .completed .nothing) :
    ∃ failure, s.complete p ending = s.push [.done p.key tag (.error failure) followUp] := by
  rw [State.complete, owner]
  cases ending with
  | completed reply =>
    cases reply with
    | nothing => exact (misfit rfl).elim
    | metadata | listing | data => exact ⟨.invalidData, rfl⟩
  | rejected failure => exact ⟨failure, rfl⟩
  | aborted => exact ⟨.aborted, rfl⟩
  | timedOut => exact ⟨.timedOut, rfl⟩
  | shutDown => exact ⟨.shutdown, rfl⟩

/-- A close that is granted takes its file out, any other clears the mark. -/
theorem complete_of_closing (s : State) (ending : Ending)
    (owner : p.owner = .operation (.closing id) tag followUp) :
    ∃ result, s.complete p ending =
      (s.endClose id result.toBool).push [.done p.key tag result followUp] ∧
      (result.toBool ↔ ending = .completed .nothing) := by
  rw [State.complete, owner]
  refine ⟨_, rfl, ?_⟩
  cases ending with
  | completed reply =>
    cases reply with
    | nothing => exact iff_of_true rfl rfl
    | metadata | listing | data => exact iff_of_false nofun nofun
  | rejected | aborted | timedOut | shutDown => exact iff_of_false nofun nofun

theorem openFiles_complete (s : State) (ending : Ending)
    (no_file : ∀ path mode tag followUp, p.owner ≠ .operation (.file path mode) tag followUp)
    (no_closing : ∀ id tag followUp, p.owner ≠ .operation (.closing id) tag followUp) :
    (s.complete p ending).openFiles = s.openFiles := by
  unfold State.complete
  split
  · split <;> rfl
  · rename_i expects tag followUp owner
    unfold State.completeOperation
    dsimp only
    split
    · exact (no_file _ _ _ _ owner).elim
    · exact (no_closing _ _ _ owner).elim
    · split <;> rfl
    · rfl

theorem openFiles_endClose (s : State) (success : Bool) (inUse : s.mount?.isSome) :
    (s.endClose id success).openFiles =
      if success then s.openFiles.filter (·.id ≠ id)
      else (OpenFiles.mark ⟨s.openFiles⟩ id false).files := by
  obtain ⟨m, hm⟩ := Option.isSome_iff_exists.1 inUse
  have files := openFiles_of_mount (Option.eq_some_of_filter_eq_some hm)
  rw [State.endClose, hm, files]
  cases success with
  | false => rfl
  | true =>
    simp only [if_true]
    cases removed : m.files.remove? s.pool id with
    | none =>
      rw [OpenFiles.remove?, Option.map_eq_none_iff, OpenFiles.find?, List.find?_eq_none] at removed
      dsimp only
      rw [files, List.filter_eq_self.2]
      simpa using removed
    | some found =>
      obtain ⟨-, hid, left, -⟩ := OpenFiles.remove?_spec removed
      exact left.trans (by rw [hid])

theorem agenda_endClose (s : State) (id : HandleId) (success : Bool) :
    (s.endClose id success).agenda = s.agenda := by
  unfold State.endClose
  split
  · rfl
  · split
    · split <;> rfl
    · rfl

/-! ## A step -/

theorem there_of_pop (ha : s.agenda = task :: rest) (hl : task.leaves = false) :
    ({ s with agenda := rest } : State).there = s.there := by
  rw [there, there, (stays_of_pop ha hl).2]
  rfl

/-- A request completed at the end of an open or a close is the one for which the agenda says
so. -/
theorem Opens.owner {key : RequestKey} (h : s.Opens key path mode tag id)
    (ha : s.agenda = .complete p ending :: rest) :
    ending = .completed .nothing ∧
      ∃ followUp, p.owner = .operation (.file path mode) tag followUp := by
  obtain ⟨q, followUp, more, first, -, owner⟩ := h.first
  rw [ha] at first
  cases first
  exact ⟨rfl, followUp, owner⟩

theorem Closes.owner {key : RequestKey} (h : s.Closes key id)
    (ha : s.agenda = .complete p ending :: rest) :
    ending = .completed .nothing ∧ p.key = key ∧
      ∃ tag followUp, p.owner = .operation (.closing id) tag followUp := by
  obtain ⟨q, tag, followUp, more, first, own, owner⟩ := h
  rw [ha] at first
  cases first
  exact ⟨rfl, own, tag, followUp, owner⟩

/-- What completing a request to open a file means for the open files. -/
theorem filing_complete_file (hs : s.Sane) (alive : s.there)
    (ha : s.agenda = .complete p ending :: rest)
    (owner : p.owner = .operation (.file path mode) tag followUp) :
    Filing s (({ s with agenda := rest } : State).complete p ending) := by
  have no_close : ∀ key id, ¬ s.Closes key id := by
    intro key id closes
    obtain ⟨-, -, _, _, other⟩ := closes.owner ha
    rw [owner] at other
    cases other
  by_cases fits : ending = .completed .nothing
  · subst fits
    rcases complete_of_file { s with agenda := rest } owner with
      ⟨m, id, files, pool, hm, mounted, added, completed⟩ | ⟨-, full, again⟩ | ⟨gone, -⟩
    · obtain ⟨file, rfl, hpath, hmode, opener, usable, -, placed, -, -, free, -⟩ :=
        OpenFiles.add?_spec added
      have perm := (hs.accounted.pop ha).perm_insertInto (Option.eq_some_of_filter_eq_some hm)
        (free _ (mem_ownedIds_id file))
      rw [← placed] at perm
      rw [completed]
      exact .record ⟨alive, ⟨p, followUp, rest, ha, rfl, owner⟩, OpenFiles.drawn_of_add? added⟩
        hpath hmode opener usable perm rfl
    · refine .same ?_ no_close ?_
      · intro key path mode tag id opens
        obtain ⟨pool, drawn⟩ := opens.drawn
        have none : s.pool.next? = none := full
        rw [none] at drawn
        cases drawn
      · rw [again]
        rfl
    · rw [there_of_pop ha rfl, alive] at gone
      cases gone
  · obtain ⟨failure, completed⟩ := complete_of_misfit { s with agenda := rest } owner fits
    refine .same ?_ no_close ?_
    · intro key path mode tag id opens
      exact fits (opens.owner ha).1
    · rw [completed]
      rfl

/-- What completing a request means for the open files. -/
theorem filing_complete (hs : s.Sane) (alive : s.there)
    (ha : s.agenda = .complete p ending :: rest) :
    Filing s (({ s with agenda := rest } : State).complete p ending) := by
  by_cases opening : ∃ path mode tag followUp, p.owner = .operation (.file path mode) tag followUp
  · obtain ⟨path, mode, tag, followUp, owner⟩ := opening
    exact filing_complete_file hs alive ha owner
  · by_cases closing : ∃ id tag followUp, p.owner = .operation (.closing id) tag followUp
    · obtain ⟨id, tag, followUp, owner⟩ := closing
      obtain ⟨result, completed, granted⟩ :=
        complete_of_closing { s with agenda := rest } ending owner
      have popped : ({ s with agenda := rest } : State).there = s.there := there_of_pop ha rfl
      rw [← popped, there, Bool.and_eq_true] at alive
      rw [completed]
      refine .close ha owner granted (openFiles_endClose _ _ alive.1) ?_
      exact congrArg (Task.done p.key tag result followUp :: ·) (agenda_endClose _ _ _)
    · refine .same ?_ ?_ ?_
      · intro key path mode tag id opens
        obtain ⟨-, followUp, owner⟩ := opens.owner ha
        exact opening ⟨path, mode, tag, followUp, owner⟩
      · intro key id closes
        obtain ⟨-, -, tag, followUp, owner⟩ := closes.owner ha
        exact closing ⟨id, tag, followUp, owner⟩
      · refine openFiles_complete _ ending ?_ ?_
        · exact fun path mode tag followUp owner => opening ⟨path, mode, tag, followUp, owner⟩
        · exact fun id tag followUp owner => closing ⟨id, tag, followUp, owner⟩

/-- What a step means for the open files of a mount that is there: unless an open or a close
comes to its end, or a close is called, they are as they were. -/
theorem filing_of_step (hs : s.Sane) (alive : s.there)
    (clear : ∀ aborted, .closeFiles aborted ∉ s.agenda) (step : s.step = some t) : Filing s t := by
  obtain ⟨task, rest, ha, deed⟩ := hs.exists_deed step
  by_cases completes : ∃ p ending, task = .complete p ending
  · obtain ⟨p, ending, rfl⟩ := completes
    rw [step_of_agenda ha] at step
    cases step
    exact filing_complete hs alive ha
  · have other : ∀ p ending rest, s.agenda ≠ .complete p ending :: rest := by
      intro p ending rest' first
      rw [ha] at first
      exact completes ⟨p, ending, (List.cons.inj first).1⟩
    have same : t.openFiles = s.openFiles → Filing s t := by
      refine .same ?_ ?_
      · rintro key path mode tag id ⟨-, ⟨p, followUp, rest, first, -⟩, -⟩
        exact other p _ rest first
      · rintro key id ⟨p, tag, followUp, rest, first, -⟩
        exact other p _ rest first
    cases deed with
    | calm _ _ h => exact same h.files
    | create _ _ _ _ files => exact same files
    | @operate operation _ _ _ _ _ p _ _ _ enters _ _ _ _ _ files =>
      cases operation with
      | closeFile id => exact .mark ha ⟨p, enters⟩ files
      | _ => exact same files
    | take _ _ _ _ _ _ _ files => exact same files
    | @pass p reply accepting =>
      refine same ?_
      rw [State.pass, if_pos accepting]
      dsimp only
      split <;> rfl
    | resume => exact same rfl
    | complete p ending => exact (completes ⟨p, ending, rfl⟩).elim
    | closeFiles aborted => exact (clear aborted (ha ▸ List.mem_cons_self)).elim

/-! ## A mount that is gone or down -/

/-- What a step means for the open files of a mount that is gone or down: none is recorded, and
none is marked. -/
inductive Stowing (s t : State) : Prop
  | same (files : t.openFiles = s.openFiles)
  /-- A close has come to an end: its file is taken out, or may be used again. -/
  | close {id : HandleId} {success : Bool}
      (files : t.openFiles = if success then s.openFiles.filter (·.id ≠ id)
        else (OpenFiles.mark ⟨s.openFiles⟩ id false).files)
  /-- All files are forgotten. -/
  | clear (files : t.openFiles = [])

/-- An open that is granted when the mount is gone or down records no file, and its caller is
told so next. -/
theorem complete_of_file_away (s : State) (away : s.there = false)
    (owner : p.owner = .operation (.file path mode) tag followUp) :
    ∃ notice, s.complete p (.completed .nothing) =
      (s.note notice).push [.done p.key tag (.error .shutdown) followUp] := by
  rcases complete_of_file s owner with ⟨m, _, _, _, hm, mounted, -⟩ | ⟨alive, -⟩ | ⟨-, told⟩
  · rw [there_of_mount? hm mounted] at away
    cases away
  · rw [alive] at away
    cases away
  · exact told

theorem openFiles_complete_away (s : State) (away : s.there = false)
    (owner : p.owner = .operation (.file path mode) tag followUp) :
    (s.complete p ending).openFiles = s.openFiles := by
  by_cases fits : ending = .completed .nothing
  · subst fits
    obtain ⟨notice, told⟩ := complete_of_file_away s away owner
    rw [told]
    rfl
  · obtain ⟨failure, told⟩ := complete_of_misfit s owner fits
    rw [told]
    rfl

theorem stowing_complete (away : s.there = false) :
    Stowing s (s.complete p ending) := by
  by_cases opening : ∃ path mode tag followUp, p.owner = .operation (.file path mode) tag followUp
  · obtain ⟨path, mode, tag, followUp, owner⟩ := opening
    exact .same (openFiles_complete_away s away owner)
  · by_cases closing : ∃ id tag followUp, p.owner = .operation (.closing id) tag followUp
    · obtain ⟨id, tag, followUp, owner⟩ := closing
      obtain ⟨result, completed, -⟩ := complete_of_closing s ending owner
      rw [completed]
      cases inUse : s.mount?.isSome with
      | true => exact .close (openFiles_endClose s result.toBool inUse)
      | false =>
        rw [Option.isSome_eq_false_iff, Option.isNone_iff_eq_none] at inUse
        refine .same ?_
        rw [endClose, inUse]
        rfl
    · refine .same (openFiles_complete s ending ?_ ?_)
      · exact fun path mode tag followUp owner => opening ⟨path, mode, tag, followUp, owner⟩
      · exact fun id tag followUp owner => closing ⟨id, tag, followUp, owner⟩

/-- A mount accepts an operation only if it is there. -/
theorem there_of_request {operation : Operation} {m : Mount} {content : Request}
    (held : s.heldMount? = some m)
    (h : operation.request m.settings.info m.mounted m.files = .ok content) : s.there := by
  rw [there, inUse_of_heldMount? held, up_of_mount (mount_of_heldMount? held),
    Operation.mounted_of_request h]
  rfl

theorem stowing_of_step (hs : s.Sane) (away : s.there = false) (step : s.step = some t) :
    Stowing s t := by
  obtain ⟨task, rest, ha, deed⟩ := hs.exists_deed step
  cases deed with
  | calm _ _ h => exact .same h.files
  | create _ _ _ _ files => exact .same files
  | operate _ held request =>
    have alive := there_of_request held request
    rw [there_of_pop ha rfl, away] at alive
    cases alive
  | take _ _ _ _ _ _ _ files => exact .same files
  | @pass p reply accepting =>
    refine .same ?_
    rw [State.pass, if_pos accepting]
    dsimp only
    split <;> rfl
  | resume => exact .same rfl
  | complete p ending =>
    have popped := (there_of_pop ha rfl).trans away
    have stowing : Stowing _ (({ s with agenda := rest } : State).complete p ending) :=
      stowing_complete popped
    cases stowing with
    | same files => exact .same files
    | close files => exact .close files
    | clear files => exact .clear files
  | closeFiles aborted =>
    rw [State.closeFiles]
    split
    · exact .clear rfl
    · rename_i none
      have none : s.mount = .none := none
      refine .clear ?_
      rw [openFiles, none]

end State

end FileRelay
