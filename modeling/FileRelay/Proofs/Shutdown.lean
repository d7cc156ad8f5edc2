import FileRelay.Proofs.Handles
import FileRelay.Proofs.Nesting
import FileRelay.Proofs.Steady

/-!
# The end of a mount

A mount goes down once, and stays down.  Whichever way it goes, it is taken down by one task: all
outstanding requests are to be finished, and behind them, when whatever their callbacks do is done,
the open files are to be forgotten.  That is the outermost shutdown.  One that sets out meanwhile
finds the mount down and does nothing.  Once the files have been forgotten nothing is left of the
mount, and nothing comes back: operations are refused, and a file that the provider grants too late
to be opened is not recorded.
-/

namespace FileRelay

/-- The provider has granted to open a file, but the caller will not be given it: the request is
still to be completed, or its caller is told that the mount has gone down. -/
inductive Trace.TooLate (p : Pending) (tag : Option String) (followUp : List Call) : Trace → Prop
  | finish : TooLate p tag followUp { owed := [.finish p (.completed .nothing)] }
  | complete : TooLate p tag followUp { owed := [.complete p (.completed .nothing)] }
  | done : TooLate p tag followUp { owed := [.done p.key tag (.error .shutdown) followUp] }
  | told : TooLate p tag followUp { paid := [.done p.key tag (.error .shutdown)] }

namespace State

variable {s₀ s t u v x y z : State} {task : Task} {front rest : List Task} {key : RequestKey}
  {p : Pending} {ending : Ending} {path : String} {mode : OpenMode} {tag : Option String}
  {followUp : List Call} {aborted : Nat} {steps before after : List State}
  {settings : MountSettings} {link : Link} {timersRun : Bool} {firstId : UInt32} {horizon : Nat}

/-- The ways in which a mount comes to be taken down: somebody asks for it, an unmount is granted,
the provider has hung up, or nobody holds the mount any more.  The tasks are what is next after
that. -/
inductive SetsOut (s : State) : List Task → Prop
  | shutDown {self : RequestId} {m : Mount} {rest : List Task}
      (first : s.agenda = .issue .shutDown self :: rest) (held : s.heldMount? = some m) :
      SetsOut s (.leaveMount :: .answer .shutDown .none :: rest)
  | unmount {p : Pending} {tag : Option String} {followUp : List Call} {rest : List Task}
      (first : s.agenda = .complete p (.completed .nothing) :: rest)
      (owner : p.owner = .operation .unmounting tag followUp) (inUse : s.mount?.isSome) :
      SetsOut s (.leaveMount :: .done p.key tag (.ok .nothing) followUp :: rest)
  | hangUp {link : ChannelLink} {rest : List Task} (first : s.agenda = .poll :: rest)
      (channel : s.channel? = some link) (nothing : link.inbox = []) (hungUp : link.sending = false)
      (news : link.toldOfHangUp = false) (inUse : s.mount?.isSome) :
      SetsOut s (.leaveMount :: .polled .finished :: rest)
  | release {rest : List Task} (first : s.agenda = .leaveMount :: rest)
      (gone : ({ s with agenda := rest } : State).mount? = none) :
      SetsOut s (.leaveManager :: rest)

/-- The outermost shutdown has come to its end: in one of the steps the open files were forgotten,
which is the last that it does. -/
def TornDown (steps : List State) : Prop :=
  ∃ x ∈ steps, ∃ aborted rest, x.agenda = .closeFiles aborted :: rest

/-- Nothing is left of a mount: it is down, no file is open, and no operation is outstanding. -/
structure Gone (s : State) : Prop where
  down : s.up = false
  files : s.openFiles = []
  idle : ∀ p ∈ s.ledger.entries, p.owner.isOperation = false

/-! ## Taking a mount down -/

theorem takeDown_of_down (down : s.up = false) : s.takeDown = s := by
  unfold State.takeDown
  cases hm : s.mount with
  | none => rfl
  | some m =>
    rw [up_of_mount hm] at down
    simp only [down]
    rfl

/-- A mount that is up is taken down by finishing all that is outstanding, and then forgetting the
open files. -/
theorem agenda_takeDown (up : s.up) : s.takeDown.agenda =
    s.ledger.entries.map (fun p => .finish p .shutDown) ++
      .closeFiles s.ledger.size :: s.agenda := by
  unfold State.takeDown
  cases hm : s.mount with
  | none =>
    rw [State.up, hm] at up
    cases up
  | some m =>
    rw [up_of_mount hm] at up
    dsimp only
    rw [if_pos up]
    unfold State.drain
    dsimp only
    split
    · rw [State.push, List.append_assoc]
      rfl
    · rw [State.push, List.append_assoc]
      rfl

theorem inUse_of_pop (ha : s.agenda = task :: rest) (hl : task.leaves = false)
    (inUse : s.mount?.isSome) : ({ s with agenda := rest } : State).mount?.isSome := by
  rw [(stays_of_pop ha hl).2, inUse]

/-- Whichever way a mount goes down, it is taken down next. -/
theorem SetsOut.agenda (h : s.SetsOut rest) (step : s.step = some t) :
    t.agenda = .takeDown :: rest := by
  cases h with
  | shutDown first held =>
    rw [step_of_agenda first, Option.some.injEq] at step
    rw [← step]
    show (State.withMount _ _ _).agenda = _
    have held' : ∀ rest, ({ s with agenda := rest } : State).heldMount? = s.heldMount? :=
      fun _ => rfl
    rw [State.withMount, held', held]
    rfl
  | unmount first owner inUse =>
    rw [step_of_agenda first, Option.some.injEq] at step
    rw [← step]
    have alive := inUse_of_pop first rfl inUse
    show (State.complete _ _ _).agenda = _
    rw [State.complete, owner]
    dsimp only [completeOperation, Ending.result, Expectation.resolve]
    show State.agenda (if _ then _ else _) = _
    rw [if_pos alive]
    rfl
  | @hangUp link rest first channel nothing hungUp news inUse =>
    rw [step_of_agenda first, Option.some.injEq] at step
    rw [← step]
    have hc : ({ s with agenda := rest } : State).channel? = some link := channel
    have told : Change s .poll { s with agenda := rest }
        ((({ s with agenda := rest } : State).note .providerHungUp).modifyChannel
          ({ · with toldOfHangUp := true })) := (Change.note _ _).trans (.modifyChannel _ _)
    have alive := inUse_of_pop first rfl inUse
    rw [← told.stays.2] at alive
    obtain ⟨m, hm⟩ := Option.isSome_iff_exists.1 alive
    show (State.poll _).agenda = _
    rw [State.poll, hc]
    dsimp only
    rw [nothing]
    simp only [hungUp, news, hm]
    rfl
  | release first gone =>
    rw [step_of_agenda first, Option.some.injEq] at step
    rw [← step]
    show (State.discardMount _).agenda = _
    rw [State.discardMount, gone]
    rfl

/-- A mount that has gone down in a run was taken down by one of the steps. -/
theorem Course.exists_takeDown (course : Course y steps u) (hy : y.Sane) (up : y.up)
    (down : u.up = false) :
    ∃ before x after rest, steps = before ++ x :: after ∧ x.up ∧ x.agenda = .takeDown :: rest := by
  induction course with
  | start =>
    rw [up] at down
    cases down
  | @work steps t u course step fair ih =>
    by_cases still : t.up
    · obtain ⟨rest, ha⟩ := (course.reaches.sane hy).takeDown_of_down step still down
      exact ⟨steps, t, [], rest, rfl, still, ha⟩
    · obtain ⟨before, x, after, rest, rfl, up, ha⟩ := ih (by simpa using still)
      exact ⟨before, x, after ++ [t], rest, by simp, up, ha⟩
  | call _ call self ih => exact ih down
  | rewind _ n ih => exact ih down

/-! ## The outermost shutdown -/

theorem TornDown.append (h : TornDown before) (after : List State) :
    TornDown (before ++ after) := by
  obtain ⟨x, mem, closes⟩ := h
  exact ⟨x, List.mem_append_left after mem, closes⟩

theorem TornDown.after_step (h : TornDown after) (before : List State) (x : State) :
    TornDown (before ++ x :: after) := by
  obtain ⟨y, mem, closes⟩ := h
  exact ⟨y, List.mem_append_right before (List.mem_cons_of_mem x mem), closes⟩

/-- Once a mount that was up has been taken down, its files are yet to be forgotten, or the
outermost shutdown has come to its end. -/
theorem Course.closes_or_tornDown (course : Course y (before ++ x :: after) u) (hy : y.Sane)
    (up : x.up) (first : x.agenda = .takeDown :: rest) :
    (∃ front aborted, u.agenda = front ++ .closeFiles aborted :: rest) ∨ TornDown after := by
  obtain ⟨z, toX, step, fair, fromZ⟩ := course.split
  have sane := (Next.work step fair).sane (toX.reaches.sane hy)
  rw [step_of_agenda first, Option.some.injEq] at step
  have ahead := agenda_takeDown (s := { x with agenda := rest }) up
  change (State.perform _ .takeDown).agenda = _ at ahead
  rw [step] at ahead
  rcases fromZ.ahead_or_done sane ahead with ⟨front, ha⟩ | ⟨before, x, after, rfl, hx⟩
  · exact .inl ⟨front, _, ha⟩
  · exact .inr ⟨x, by simp, _, _, hx⟩

theorem files_of_closeFiles (first : s.agenda = .closeFiles aborted :: rest)
    (step : s.step = some t) : t.openFiles = [] := by
  rw [step_of_agenda first, Option.some.injEq] at step
  rw [← step]
  show (State.closeFiles _ _).openFiles = _
  unfold State.closeFiles
  split
  · rfl
  · rename_i none
    rw [openFiles, none]

/-- As long as a mount is down no file comes to be open. -/
theorem exists_of_down (hs : s.Sane) (down : s.up = false) (step : s.step = some t)
    {file : OpenFile} (mem : file ∈ t.openFiles) : ∃ old ∈ s.openFiles, old.id = file.id := by
  have away : s.there = false := by rw [there, down, Bool.and_false]
  cases stowing_of_step hs away step with
  | same files => exact ⟨file, files ▸ mem, rfl⟩
  | @close id success files =>
    rw [files] at mem
    cases success with
    | true => exact ⟨file, (List.mem_filter.1 mem).1, rfl⟩
    | false =>
      obtain ⟨old, hold, rfl⟩ := List.mem_map.1 mem
      refine ⟨old, hold, ?_⟩
      split <;> rfl
  | clear files =>
    rw [files] at mem
    cases mem

theorem Sane.idle_of_down (hs : s.Sane) (down : s.up = false) :
    ∀ p ∈ s.ledger.entries, p.owner.isOperation = false := by
  intro p hp
  by_contra ho
  rw [hs.upkeep.facade p hp (by simpa using ho)] at down
  cases down

section start

variable (start : Start s₀)
include start

/-- Once the outermost shutdown has come to its end, nothing is left of the mount. -/
theorem Course.gone (course : Course s₀ steps u) (torn : TornDown steps) : u.Gone := by
  have stays : u.up = false ∧ u.openFiles = [] := by
    induction course with
    | start =>
      obtain ⟨x, mem, -⟩ := torn
      cases mem
    | @work steps t u course step fair ih =>
      have sane := course.sane start
      have next : Next t u := .work step fair
      have down : t.up = false → u.up = false := by
        intro down
        by_contra up
        rw [next.up_of_up sane (by simpa using up)] at down
        cases down
      obtain ⟨x, mem, aborted, rest, first⟩ := torn
      rcases List.mem_append.1 mem with mem | mem
      · obtain ⟨gone, files⟩ := ih ⟨x, mem, aborted, rest, first⟩
        refine ⟨down gone, List.eq_nil_iff_forall_not_mem.2 fun file hf => ?_⟩
        obtain ⟨old, hold, -⟩ := exists_of_down sane gone step hf
        rw [files] at hold
        cases hold
      · rw [List.mem_singleton.1 mem] at first
        exact ⟨down ((course.kept start).clear aborted (first ▸ List.mem_cons_self)),
          files_of_closeFiles first step⟩
    | call _ call self ih => exact ih torn
    | rewind _ n ih => exact ih torn
  exact ⟨stays.1, stays.2, (course.sane start).idle_of_down stays.1⟩

end start

/-! ## What comes too late -/

/-- An open that is granted to a mount that is down ends in an error. -/
theorem Next.tooLate (hn : Next s t) (hs : s.Sane) (fate : s.Fate p.key) (down : s.up = false)
    (owner : p.owner = .operation (.file path mode) tag followUp)
    (h : (s.trace p.key).TooLate p tag followUp) : (t.trace p.key).TooLate p tag followUp := by
  rcases hn.becomes hs fate with same | ⟨task, rest, ha, step, becomes⟩
  · rw [same]
    exact h
  · generalize s.trace p.key = before at h becomes
    generalize hy : t.trace p.key = after at becomes ⊢
    cases h with
    | finish =>
      cases becomes with
      | stay => exact .finish
      | finish => exact .complete
    | complete =>
      cases becomes with
      | stay => exact .complete
      | call _ client =>
        rw [owner] at client
        cases client
      | settle named =>
        subst named
        have away : ({ s with agenda := rest } : State).there = false := by
          rw [there_of_pop ha rfl, there, down, Bool.and_false]
        obtain ⟨notice, told⟩ := complete_of_file_away { s with agenda := rest } away owner
        rw [step_of_agenda ha, Option.some.injEq] at step
        change ({ s with agenda := rest } : State).complete p (.completed .nothing) = t at step
        rw [told] at step
        have same := eq_of_owed (by rw [← step]; rfl) rfl hy
        cases same
        exact .done
    | done =>
      cases becomes with
      | stay => exact .done
      | pay => exact .told
    | told =>
      cases becomes
      exact .told

theorem Course.tooLate (course : Course s steps u) (hs : s.Sane) (fate : s.Fate p.key)
    (down : s.up = false) (owner : p.owner = .operation (.file path mode) tag followUp)
    (h : (s.trace p.key).TooLate p tag followUp) : (u.trace p.key).TooLate p tag followUp := by
  have stays : u.up = false ∧ (u.trace p.key).TooLate p tag followUp := by
    refine course.reaches.invariant
      (P := fun v => v.up = false ∧ (v.trace p.key).TooLate p tag followUp) ⟨down, h⟩
      fun v w hv hn hd => ?_
    have sane := hv.sane hs
    refine ⟨?_, hn.tooLate sane (hv.fate hs fate) hd.1 owner hd.2⟩
    by_contra up
    have up' := hn.up_of_up sane (by simpa using up)
    rw [hd.1] at up'
    cases up'
  exact stays.2

/-- A mount that is down refuses every operation. -/
theorem refused_of_down {operation : Operation} {self : RequestId} (down : s.up = false)
    (called : s.agenda = .issue (.operate operation tag followUp) self :: rest) :
    ∃ answer, s.Refuses operation answer ∧ s.step = some
      (({ s with agenda := rest } : State).reply (.operate operation tag followUp) answer) := by
  rw [step_of_agenda called]
  show ∃ answer, _ ∧ some (State.operate _ _ _ _ _ _) = _
  unfold State.operate
  have held' : ({ s with agenda := rest } : State).heldMount? = s.heldMount? := rfl
  rw [held']
  cases held : s.heldMount? with
  | none => exact ⟨_, .noMount held, rfl⟩
  | some m =>
    cases hr : operation.request m.settings.info m.mounted m.files with
    | error failure =>
      dsimp only
      rw [hr]
      exact ⟨_, .refused held hr, rfl⟩
    | ok content =>
      have alive := there_of_request held hr
      rw [there, down, Bool.and_false] at alive
      cases alive

theorem trespasses?_of_agenda (ha : s.agenda = task :: rest)
    (other : ∀ call self, task ≠ .issue (.pool call) self) : s.trespasses? = false :=
  Bool.eq_false_iff.2 fun trespasses =>
    not_trespasses ha (fun ref => other (.release ref)) (trespasses?_iff.1 trespasses)

theorem follow?_work {choices : List Choice} (ha : s.agenda = task :: rest)
    (fair : s.trespasses? = false) :
    s.follow? (.work :: choices) =
      (({ s with agenda := rest } : State).perform task).follow? choices := by
  rw [follow?, take?, if_neg (by simp [fair]), step_of_agenda ha, Option.bind_some]

/-- Taking down a mount that is down changes nothing. -/
theorem shutDown_of_down {m : Mount} {self : RequestId} (down : s.up = false)
    (held : s.heldMount? = some m) (called : s.agenda = .issue .shutDown self :: rest) :
    s.follow? (List.replicate 4 .work) =
      some (({ s with agenda := rest } : State).reply .shutDown .none) := by
  have fair : ∀ {u : State}, (∀ call self, u.agenda.head? ≠ some (.issue (.pool call) self)) →
      u.trespasses? = false := by
    intro u head
    rw [trespasses?]
    split
    · rename_i ref self' rest' ha
      exact (head (.release ref) self' (by rw [ha]; rfl)).elim
    · rw [Bool.and_false]
  -- What the call sets off, with more and more of it done.
  let ahead (tasks : List Task) : State := { s with agenda := tasks ++ rest }
  have issued : ({ s with agenda := rest } : State).perform (.issue .shutDown self) =
      ahead [.takeDown, .leaveMount, .answer .shutDown .none] := by
    have held' : ({ s with agenda := rest } : State).heldMount? = some m := held
    show State.withMount _ _ _ = _
    rw [withMount, held']
    rfl
  have taken : (ahead [.leaveMount, .answer .shutDown .none]).perform .takeDown =
      ahead [.leaveMount, .answer .shutDown .none] := takeDown_of_down down
  have left : (ahead [.answer .shutDown .none]).perform .leaveMount =
      ahead [.answer .shutDown .none] := by
    have inUse : (ahead [.answer .shutDown .none]).mount?.isSome :=
      inUse_of_heldMount? (m := m) held
    show State.discardMount _ = _
    rw [discardMount, if_pos inUse]
  have next : ∀ task tasks, (ahead (task :: tasks)).agenda = task :: (tasks ++ rest) :=
    fun _ _ => rfl
  rw [List.replicate_succ, follow?_work called (fair (by simp [called])), issued,
    List.replicate_succ, follow?_work (next .takeDown _) (fair (by simp [ahead]))]
  show follow? (State.perform (ahead [.leaveMount, .answer .shutDown .none]) _) _ = _
  rw [taken, List.replicate_succ, follow?_work (next .leaveMount _) (fair (by simp [ahead]))]
  show follow? (State.perform (ahead [.answer .shutDown .none]) _) _ = _
  rw [left, List.replicate_succ, follow?_work (next (.answer .shutDown .none) _)
    (fair (by simp [ahead]))]
  rfl

/-! ## Shutdown is final -/

/-- What holds of the end of a mount after a run, told with its steps. -/
structure ShutDownFinal (steps : List State) (s : State) : Prop where
  /-- Whichever way the mount goes down, it is taken down before what comes next: if that did not
  find it down already, by another shutdown, it is still to be taken down or its files are still to
  be forgotten, or the outermost shutdown has come to its end. -/
  ways : ∀ before v after next, steps = before ++ v :: after → v.SetsOut next →
    (∃ front, s.agenda = front ++ .takeDown :: next) ∨
      (∃ x ∈ after, x.agenda = .takeDown :: next ∧ x.up = false) ∨
      (∃ front aborted, s.agenda = front ++ .closeFiles aborted :: next) ∨ TornDown after
  /-- A mount that is down was taken down by one of the steps, which is the outermost shutdown.
  Until this has come to its end, what comes next after it waits. -/
  taken : s.up = false → ∃ before x after next, steps = before ++ x :: after ∧ x.up ∧
    x.agenda = .takeDown :: next ∧
    ((∃ front aborted, s.agenda = front ++ .closeFiles aborted :: next) ∨ TornDown after)
  /-- Once the outermost shutdown has come to its end, the mount is down, no file is open, and no
  operation is outstanding. -/
  gone : TornDown steps → s.Gone
  /-- An operation that is called once the mount is down is refused, and comes to nothing but its
  answer. -/
  refused : s.up = false → ∀ operation tag followUp self rest,
    s.agenda = .issue (.operate operation tag followUp) self :: rest →
    ∃ answer, s.Refuses operation answer ∧ s.step =
      some (({ s with agenda := rest } : State).reply (.operate operation tag followUp) answer)
  /-- No file comes to be open once the mount is down. -/
  unopened : s.up = false → ∀ t, s.step = some t →
    ∀ file ∈ t.openFiles, ∃ old ∈ s.openFiles, old.id = file.id
  /-- An open that was granted, but not completed by the time that the mount went down, ends in an
  error: its caller is told that the mount has gone down. -/
  tooLate : ∀ before x after p path mode tag followUp, steps = before ++ x :: after →
    x.up = false → p.owner = .operation (.file path mode) tag followUp →
    .finish p (.completed .nothing) ∈ x.agenda ∨ .complete p (.completed .nothing) ∈ x.agenda →
    (s.trace p.key).TooLate p tag followUp
  /-- Taking the mount down once more changes nothing. -/
  again : s.up = false → ∀ m self rest, s.heldMount? = some m →
    s.agenda = .issue .shutDown self :: rest →
    s.follow? (List.replicate 4 .work) =
      some (({ s with agenda := rest } : State).reply .shutDown .none)

/-- A granted open that is yet to be completed shows nothing else. -/
theorem Fate.tooLate (fate : s.Fate p.key)
    (mem : .finish p (.completed .nothing) ∈ s.agenda ∨
      .complete p (.completed .nothing) ∈ s.agenda) :
    (s.trace p.key).TooLate p tag followUp := by
  have shows : ∀ x ∈ s.agenda, x.owed? = some p.key → s.trace p.key = { owed := [x] } := by
    intro x hx owed
    have mem : x ∈ (s.trace p.key).owed := List.mem_filter.2 ⟨hx, by simpa using owed⟩
    cases fate with
    | nothing nothing =>
      rw [nothing] at mem
      cases mem
    | outstanding _ entry =>
      rw [entry] at mem
      cases mem
    | settled _ _ settled =>
      generalize s.trace p.key = trace at settled mem
      cases settled with
      | owed =>
        rw [List.mem_singleton.1 mem]
      | paid => cases mem
  rcases mem with mem | mem
  · rw [shows _ mem rfl]
    exact .finish
  · rw [shows _ mem rfl]
    exact .complete

/-- For every run of a mount its shutdown is final. -/
theorem shutDown_final (course : Course (ofMount settings link timersRun firstId horizon) steps s) :
    ShutDownFinal steps s := by
  have start : Start (ofMount settings link timersRun firstId horizon) :=
    .mount settings link timersRun firstId horizon
  constructor
  case ways =>
    rintro before v after next rfl ways
    obtain ⟨w, toV, step, fair, fromW⟩ := course.split
    have sane : w.Sane := (Next.work step fair).sane (toV.sane start)
    have sets : w.agenda = [] ++ _ :: _ := ways.agenda step
    rcases fromW.ahead_or_done sane sets with
      ahead | ⟨first, x, last, rfl, hx⟩
    · exact .inl ahead
    · refine .inr ?_
      by_cases up : x.up
      · refine .inr ((fromW.closes_or_tornDown sane up hx).imp_right ?_)
        exact fun torn => torn.after_step _ _
      · exact .inl ⟨x, by simp, hx, by simpa using up⟩
  case taken =>
    intro down
    obtain ⟨before, x, after, rest, rfl, up, hx⟩ := course.exists_takeDown start.sane rfl down
    exact ⟨before, x, after, rest, rfl, up, hx, course.closes_or_tornDown start.sane up hx⟩
  case gone => exact course.gone start
  case refused =>
    intro down operation tag followUp self rest called
    exact refused_of_down down called
  case unopened =>
    intro down t step file mem
    exact exists_of_down (course.sane start) down step mem
  case tooLate =>
    rintro before x after p path mode tag followUp rfl down owner mem
    obtain ⟨y, toX, step, fair, fromY⟩ := course.split
    have fromX : Course x (x :: after) s := (Course.work .start step fair).trans fromY
    have fate := toX.fate start p.key
    exact fromX.tooLate (toX.sane start) fate down owner (fate.tooLate mem)
  case again =>
    intro down m self rest held called
    exact shutDown_of_down down held called

/-- A mount with an open file and an operation outstanding is taken down: nothing is left of it. -/
theorem shutDown_final_of_one :
    ∃ steps s, Course (ofMount
        { info := { providerId := "p", fileSystemId := "f", displayName := "d" } }
        (.direct {}) true) steps s ∧ TornDown steps ∧ s.Gone := by
  have run : ((ofMount { info := { providerId := "p", fileSystemId := "f", displayName := "d" } }
      (.direct {}) true).follow?
        (.call (.operate (.openFile "/a" .read) none []) ⟨0⟩ :: List.replicate 7 .work ++
          .call (.deliver (.given ⟨1⟩) (.success .nothing)) ⟨0⟩ :: List.replicate 8 .work ++
          .call (.operate (.getMetadata "/a") none []) ⟨0⟩ :: List.replicate 7 .work ++
          .call .shutDown ⟨0⟩ :: List.replicate 10 .work)).any
        fun s => s.agenda.isEmpty && !s.up := by
    decide +kernel
  rw [Option.any_eq_true] at run
  obtain ⟨s, hs, run⟩ := run
  rw [Bool.and_eq_true, Bool.not_eq_true', List.isEmpty_iff] at run
  have final := shutDown_final (course_of_follow? hs)
  obtain ⟨before, x, after, next, cut, -, -, ⟨front, aborted, ahead⟩ | torn⟩ := final.taken run.2
  · rw [run.1] at ahead
    simp at ahead
  · have torn := cut ▸ torn.after_step before x
    exact ⟨_, s, course_of_follow? hs, torn, final.gone torn⟩

end State

end FileRelay
