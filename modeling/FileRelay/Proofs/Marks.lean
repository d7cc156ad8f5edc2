import FileRelay.Proofs.Handles

/-!
# The mark of a file that is being closed

A file is marked from the call that closes it until the callback of that close comes up, and
by nothing else: while no completion is half-way, a file of a mount is marked if and only if one
request to close it is outstanding, and there are never two.  So a close that fails, in
whatever way, gives its file back before its caller is told, and no file stays marked with
nobody left to clear the mark.
-/

namespace FileRelay

/-- The file that the one who waits wants closed. -/
def Owner.closing? : Owner → Option HandleId
  | .operation (.closing id) _ _ => some id
  | _ => none

/-- Whether a task completes a request that has left the ledger, and whose callback has not
come up yet. -/
def Task.completes : Task → Bool
  | .finish .. | .complete .. => true
  | _ => false

theorem Owner.closing?_eq_some {o : Owner} {id : HandleId} :
    o.closing? = some id ↔ ∃ tag followUp, o = .operation (.closing id) tag followUp := by
  constructor
  · intro h
    unfold Owner.closing? at h
    split at h
    · cases h
      exact ⟨_, _, rfl⟩
    · cases h
  · rintro ⟨tag, followUp, rfl⟩
    rfl

namespace State

variable {s₀ s t : State} {task : Task} {rest : List Task} {key other : RequestKey} {p : Pending}
  {ending : Ending} {tag : Option String} {followUp : List Call} {id : HandleId}
  {file : OpenFile} {steps before after : List State} {settings : MountSettings} {link : Link}
  {timersRun : Bool} {firstId : UInt32} {horizon : Nat}

/-- The outstanding requests to close a file. -/
def closesOf (s : State) (id : HandleId) : List Pending :=
  s.ledger.entries.filter (·.owner.closing? = some id)

/-- Whether the completion of a request is half-way. -/
def midway (s : State) : Bool := s.agenda.any Task.completes

/-- The mount has a file that may be used. -/
def Usable (s : State) (id : HandleId) : Prop :=
  ∃ m, s.mount? = some m ∧ (m.files.usable? id).isSome

theorem mem_closesOf : p ∈ s.closesOf id ↔
    p ∈ s.ledger.entries ∧ ∃ tag followUp, p.owner = .operation (.closing id) tag followUp := by
  rw [closesOf, List.mem_filter, decide_eq_true_eq, Owner.closing?_eq_some]

/-- An outstanding request to close a file is under way. -/
theorem Fate.closing (fate : s.Fate p.key) (h : p ∈ s.closesOf id) :
    (s.trace p.key).Closing id := by
  obtain ⟨mem, tag, followUp, owner⟩ := mem_closesOf.1 h
  rw [(fate.of_mem mem).2]
  exact .outstanding owner

/-- A close that is under way is outstanding, or its completion is half-way. -/
theorem mem_closesOf_or_completes (closing : (s.trace key).Closing id) :
    (∃ p ∈ s.closesOf id, p.key = key) ∨
      ∃ x ∈ s.agenda, x.completes ∧ x.owed? = some key := by
  have half : ∀ {x : Task}, (s.trace key).owed = [x] → x.completes →
      ∃ x ∈ s.agenda, x.completes ∧ x.owed? = some key := by
    intro x owed completes
    have mem : x ∈ (s.trace key).owed := owed ▸ List.mem_singleton_self x
    rw [trace, List.mem_filter, decide_eq_true_eq] at mem
    exact ⟨x, mem.1, completes, mem.2⟩
  generalize h : s.trace key = tr at closing
  cases closing with
  | @outstanding p tag followUp owner =>
    obtain ⟨mem, own⟩ := mem_of_trace (congrArg Trace.outstanding h)
    exact .inl ⟨p, mem_closesOf.2 ⟨mem, tag, followUp, owner⟩, own⟩
  | finish | complete => exact .inr (half (congrArg Trace.owed h) rfl)

/-! ## One close of a file -/

/-- No two closes of a file are under way. -/
def ClosesApart (s : State) : Prop :=
  ∀ key other id, (s.trace key).Closing id → (s.trace other).Closing id → other = key

theorem Next.closesApart (hn : Next s t) (hs : s.Sane) (kept : s.Kept)
    (fate : ∀ key, s.Fate key) (h : s.ClosesApart) : t.ClosesApart := by
  intro key other id closing closing'
  rcases hn.closing_or_starts hs (fate key) closing with old | ⟨_, _, starts⟩
  · rcases hn.closing_or_starts hs (fate other) closing' with old' | ⟨_, _, starts'⟩
    · exact h key other id old old'
    · exact (kept.not_closing_of_starts hs starts' old).elim
  · rcases hn.closing_or_starts hs (fate other) closing' with old' | ⟨_, _, starts'⟩
    · exact (kept.not_closing_of_starts hs starts old').elim
    · exact starts.key_eq starts' hs

theorem Start.closesApart (h : Start s) : s.ClosesApart := by
  intro key other id closing
  have nothing : s.trace key = {} := by cases h <;> rfl
  rw [nothing] at closing
  cases closing

theorem Reaches.closesApart (start : Start s₀) (h : Reaches s₀ s) : s.ClosesApart :=
  h.invariant start.closesApart fun _ _ hu hn apart =>
    hn.closesApart (hu.sane start.sane) (hu.kept start)
      (fun key => hu.fate start.sane (start.fate key)) apart

/-- At most one request to close a file is outstanding. -/
theorem ClosesApart.length_le (h : s.ClosesApart) (hs : s.Sane) (fate : ∀ key, s.Fate key)
    (id : HandleId) : (s.closesOf id).length ≤ 1 := by
  have nodup : ((s.closesOf id).map (·.id)).Nodup :=
    hs.accounted.nodup_ids.sublist (List.filter_sublist.map _)
  have same : ∀ p ∈ s.closesOf id, ∀ q ∈ s.closesOf id, q.id = p.id := by
    intro p hp q hq
    exact congrArg RequestKey.id (h p.key q.key id ((fate _).closing hp) ((fate _).closing hq))
  generalize s.closesOf id = closes at nodup same
  match closes with
  | [] | [_] => simp
  | p :: q :: _ =>
    have apart : q.id ≠ p.id := by
      have := (List.nodup_cons.1 nodup).1
      simp at this
      exact fun he => this.1 he.symm
    exact (apart (same p (by simp) q (by simp))).elim

/-! ## Whoever marks a file -/

/-- A close that is under way stays so until it is completed. -/
theorem Next.closing_or_completed (hn : Next s t) (hs : s.Sane) (fate : s.Fate key)
    (closing : (s.trace key).Closing id) :
    (t.trace key).Closing id ∨ ∃ p ending tag followUp rest,
      s.agenda = .complete p ending :: rest ∧ p.owner = .operation (.closing id) tag followUp := by
  rcases hn.becomes hs fate with same | ⟨task, rest, ha, step, becomes⟩
  · exact .inl (same ▸ closing)
  · generalize hx : s.trace key = before at becomes closing
    generalize hy : t.trace key = later at becomes
    cases closing with
    | @outstanding p tag followUp owner =>
      obtain ⟨mem, own⟩ := mem_of_trace (congrArg Trace.outstanding hx)
      cases becomes with
      | stay => exact .inl (.outstanding owner)
      | goOn same =>
        have waits := same.owner
        rw [owner] at waits
        obtain ⟨parts, waits⟩ := waits.of_operation
        rw [collectAll_of_whole rfl] at waits
        exact .inl (.outstanding waits)
      | leave => exact .inl (.finish owner)
      | lose =>
        -- Only the request of a client goes down with its manager.
        subst own
        obtain ⟨known, entry⟩ := fate.of_mem mem
        rcases hn.turn hs known entry with ⟨r, -, still⟩ | ⟨ending, -, settled⟩ | ⟨client, -⟩
        · rw [hy] at still
          cases still
        · rw [hy] at settled
          cases settled
        · rw [owner] at client
          cases client
    | @finish p ending tag followUp owner =>
      cases becomes with
      | stay => exact .inl (.finish owner)
      | finish => exact .inl (.complete owner)
    | @complete p ending tag followUp owner =>
      cases becomes with
      | stay => exact .inl (.complete owner)
      | call _ client =>
        rw [owner] at client
        cases client
      | settle named => exact .inr ⟨p, ending, tag, followUp, rest, named ▸ ha, owner⟩

theorem mem_of_mem_unmark {files : List OpenFile}
    (h : file ∈ (OpenFiles.mark ⟨files⟩ id false).files) (marked : file.closing) :
    file ∈ files ∧ file.id ≠ id := by
  obtain ⟨old, mem, rfl⟩ := List.mem_map.1 h
  split at marked
  · cases marked
  · rename_i apart
    rw [if_neg apart]
    exact ⟨mem, apart⟩

theorem mem_or_eq_of_mem_mark {files : List OpenFile}
    (h : file ∈ (OpenFiles.mark ⟨files⟩ id true).files) : file ∈ files ∨ file.id = id := by
  obtain ⟨old, mem, rfl⟩ := List.mem_map.1 h
  split
  · exact .inr ‹_›
  · exact .inl mem

/-- A file is marked only by the call of a close. -/
theorem marked_or_starts (hs : s.Sane) (kept : s.Kept) (fate : ∀ key, s.Fate key) (ht : t.Sane)
    (step : s.step = some t) (mem : file ∈ t.openFiles) (marked : file.closing) :
    file ∈ s.openFiles ∨ ∃ key tag followUp, s.Starts t (.closeFile file.id) tag followUp key := by
  by_cases alive : s.there
  · cases filing_of_step hs alive (kept.not_mem_closeFiles alive) step with
    | same _ _ files => exact .inl (files ▸ mem)
    | mark called enters files =>
      rw [files] at mem
      rcases mem_or_eq_of_mem_mark mem with old | rfl
      · exact .inl old
      · obtain ⟨p, enters⟩ := enters
        exact .inr ⟨p.key, _, _, enters.starts called step ht (fate p.key)⟩
    | record _ _ _ _ usable files =>
      rcases List.mem_cons.1 (files.mem_iff.1 mem) with rfl | old
      · rw [usable] at marked
        cases marked
      · exact .inl old
    | close _ _ _ files =>
      rw [files] at mem
      split at mem
      · exact .inl (List.mem_filter.1 mem).1
      · exact .inl (mem_of_mem_unmark mem marked).1
  · cases stowing_of_step hs (by simpa using alive) step with
    | same files => exact .inl (files ▸ mem)
    | close files =>
      rw [files] at mem
      split at mem
      · exact .inl (List.mem_filter.1 mem).1
      · exact .inl (mem_of_mem_unmark mem marked).1
    | clear files =>
      rw [files] at mem
      cases mem

/-- A close that is completed leaves no mark on its file. -/
theorem not_marked_of_completed (inUse : s.mount?.isSome)
    (ha : s.agenda = .complete p ending :: rest)
    (owner : p.owner = .operation (.closing id) tag followUp) (step : s.step = some t)
    (mem : file ∈ t.openFiles) (marked : file.closing) : file ∈ s.openFiles ∧ file.id ≠ id := by
  obtain ⟨result, completed, -⟩ :=
    complete_of_closing { s with agenda := rest } ending owner
  rw [step_of_agenda ha, Option.some.injEq] at step
  change ({ s with agenda := rest } : State).complete p ending = t at step
  rw [← step, completed] at mem
  have popped : ({ s with agenda := rest } : State).mount?.isSome := by
    rw [(stays_of_pop ha rfl).2]
    exact inUse
  rw [show openFiles (push _ _) = _ from openFiles_endClose _ result.toBool popped] at mem
  split at mem
  · obtain ⟨old, apart⟩ := List.mem_filter.1 mem
    exact ⟨old, by simpa using apart⟩
  · exact mem_of_mem_unmark mem marked

/-- Every marked file of a mount has a close under way. -/
def Pledged (s : State) : Prop :=
  s.mount?.isSome → ∀ file ∈ s.openFiles, file.closing → ∃ key, (s.trace key).Closing file.id

theorem Next.pledged (hn : Next s t) (hs : s.Sane) (kept : s.Kept) (fate : ∀ key, s.Fate key)
    (h : s.Pledged) : t.Pledged := by
  intro ht file mem marked
  have inUse := hn.inUse_of_inUse hs ht
  cases hn with
  | work step fair =>
    have next : Next s t := .work step fair
    -- A mark that is there before the step is cleared if its close is the one that ends.
    have stays : file ∈ s.openFiles → ∃ key, (t.trace key).Closing file.id := by
      intro old
      obtain ⟨key, closing⟩ := h inUse file old marked
      rcases next.closing_or_completed hs (fate key) closing with
        still | ⟨p, ending, tag, followUp, rest, ha, owner⟩
      · exact ⟨key, still⟩
      · exact ((not_marked_of_completed inUse ha owner step mem marked).2 rfl).elim
    rcases marked_or_starts hs kept fate (next.sane hs) step mem marked with
      old | ⟨key, tag, followUp, starts⟩
    · exact stays old
    · obtain ⟨p, found, waits⟩ := starts.after
      obtain ⟨mem, rfl⟩ := mem_of_findExact? found
      obtain ⟨parts, owner⟩ := waits.of_operation
      rw [Operation.expectation, collectAll_of_whole rfl] at owner
      exact ⟨p.key, (next.fate hs (fate p.key)).closing
        (mem_closesOf.2 ⟨mem, tag, followUp, owner⟩)⟩
  | call call self =>
    obtain ⟨key, closing⟩ := h inUse file mem marked
    refine ⟨key, ?_⟩
    rw [trace_push_quiet s (by simp [Task.owed?])]
    exact closing
  | rewind n => exact h inUse file mem marked

theorem Start.pledged (h : Start s) : s.Pledged := by
  intro _ file mem
  have none : s.openFiles = [] := by cases h <;> rfl
  rw [none] at mem
  cases mem

theorem Reaches.pledged (start : Start s₀) (h : Reaches s₀ s) : s.Pledged :=
  h.invariant start.pledged fun _ _ hu hn pledged =>
    hn.pledged (hu.sane start.sane) (hu.kept start)
      (fun key => hu.fate start.sane (start.fate key)) pledged

/-! ## Giving a file back -/

/-- A file in the table that is not marked may be used. -/
theorem usable_of_mem (hs : s.Sane) (inUse : s.mount?.isSome) (mem : file ∈ s.openFiles)
    (unmarked : file.closing = false) : s.Usable file.id := by
  obtain ⟨m, hm⟩ := Option.isSome_iff_exists.1 inUse
  have files := openFiles_of_mount (Option.eq_some_of_filter_eq_some hm)
  rw [files] at mem
  refine ⟨m, hm, ?_⟩
  rw [OpenFiles.usable?, Option.isSome_filter]
  cases found : m.files.find? file.id with
  | none =>
    have absent := List.find?_eq_none.1 found file mem
    simp at absent
  | some other =>
    have same : other.id = file.id := by simpa using List.find?_some found
    have mem' := List.mem_of_find?_eq_some found
    rw [← files] at mem mem'
    rw [hs.accounted.eq_of_handle mem mem' same, Option.any_some, unmarked]
    rfl

/-- A close that ends in anything but a success that fits gives its file back in the step that
brings the callback of its caller up, as long as the mount is there. -/
theorem Kept.given_back (kept : s.Kept) (hs : s.Sane) (fate : s.Fate p.key) (next : Next s t)
    (step : s.step = some t) (ha : s.agenda = .complete p ending :: rest)
    (owner : p.owner = .operation (.closing id) tag followUp)
    (fails : ending ≠ .completed .nothing) :
    (∃ failure, t.agenda = .done p.key tag (.error failure) followUp :: rest) ∧
      (t.there → ∃ file ∈ t.openFiles, file.id = id ∧ file.closing = false) := by
  obtain ⟨result, completed, granted⟩ := complete_of_closing { s with agenda := rest } ending owner
  have after : ({ s with agenda := rest } : State).complete p ending = t := by
    rw [step_of_agenda ha, Option.some.injEq] at step
    exact step
  have failed : result.toBool = false := by simpa using mt granted.1 fails
  rw [completed, failed] at after
  constructor
  · cases result with
    | ok value => cases failed
    | error failure =>
      rw [← after]
      exact ⟨failure, congrArg (List.cons _) (agenda_endClose _ _ _)⟩
  · intro alive
    have alive' := next.there_of_there hs alive
    have trace := (fate.carries ha rfl).1
    obtain ⟨file, mem, rfl, -⟩ := kept.marked alive' p.key id (trace ▸ .complete owner)
    have popped : ({ s with agenda := rest } : State).mount?.isSome := by
      rw [there, Bool.and_eq_true] at alive'
      rw [(stays_of_pop ha rfl).2]
      exact alive'.1
    have files : (({ s with agenda := rest } : State).endClose file.id false).openFiles = _ :=
      openFiles_endClose _ false popped
    have unmarked := mem_mark file.id false mem
    rw [if_pos rfl] at unmarked
    refine ⟨{ file with closing := false }, ?_, rfl, rfl⟩
    rw [← after]
    exact files ▸ unmarked

/-- What holds of the marks of a mount after a run, told with its steps. -/
structure ClosingMarks (steps : List State) (s : State) : Prop where
  /-- No file has two closes outstanding. -/
  single : ∀ id, (s.closesOf id).length ≤ 1
  /-- While no completion is half-way, a file of the mount is marked if and only if one request
  to close it is outstanding. -/
  exact : s.mount?.isSome → s.midway = false → ∀ id,
    (∃ file ∈ s.openFiles, file.id = id ∧ file.closing) ↔ (s.closesOf id).length = 1
  /-- A file that is marked has its close outstanding, or half-way through its completion. -/
  pending : s.mount?.isSome → ∀ file ∈ s.openFiles, file.closing →
    (s.closesOf file.id).length = 1 ∨ ∃ x ∈ s.agenda, x.completes ∧
      ∃ key, x.owed? = some key ∧ (s.trace key).Closing file.id
  /-- A close that ends in anything but a success that fits has its file back in the table and
  usable by the time that the callback of its caller is next, while the mount is there. -/
  returned : ∀ before x after p ending id tag followUp rest, steps = before ++ x :: after →
    x.agenda = .complete p ending :: rest → p.owner = .operation (.closing id) tag followUp →
    ending ≠ .completed .nothing → ∃ y failure, x.step = some y ∧
      y.agenda = .done p.key tag (.error failure) followUp :: rest ∧ (y.there → y.Usable id)
  /-- Whoever is told that a close has failed may use the file, unless another close of it is
  called in between or the mount goes away. -/
  told : ∀ before x after key id tag failure followUp rest, steps = before ++ x :: after →
    Called before id key → x.agenda = .done key tag (.error failure) followUp :: rest →
    ∃ first r last p ending tag' followUp' rest', before = first ++ r :: last ∧
      Called first id key ∧ r.agenda = .complete p ending :: rest' ∧ p.key = key ∧
      p.owner = .operation (.closing id) tag' followUp' ∧ ending ≠ .completed .nothing ∧
      (x.there → (∀ other, ¬ Called last id other) → x.Usable id)

theorem fails_of_gives {failure : Failure}
    (h : (Expectation.closing id).Gives ending (.error failure)) :
    ending ≠ .completed .nothing := by
  rintro rfl
  cases h

/-- In every run of a mount its files are marked just as closes of them are outstanding, and a
close that fails gives its file back. -/
theorem closing_marks_exact
    (course : Course (ofMount settings link timersRun firstId horizon) steps s) :
    ClosingMarks steps s := by
  have start : Start (ofMount settings link timersRun firstId horizon) :=
    .mount settings link timersRun firstId horizon
  have sane := course.sane start
  have fate := course.fate start
  have apart := course.reaches.closesApart start
  have single := apart.length_le sane fate
  have one : ∀ {id p}, p ∈ s.closesOf id → (s.closesOf id).length = 1 :=
    fun h => Nat.le_antisymm (single _) (List.length_pos_of_mem h)
  have pending : s.mount?.isSome → ∀ file ∈ s.openFiles, file.closing →
      (s.closesOf file.id).length = 1 ∨ ∃ x ∈ s.agenda, x.completes ∧
        ∃ key, x.owed? = some key ∧ (s.trace key).Closing file.id := by
    intro inUse file mem marked
    obtain ⟨key, closing⟩ := course.reaches.pledged start inUse file mem marked
    rcases mem_closesOf_or_completes closing with ⟨p, hp, -⟩ | ⟨x, hx, completes, owed⟩
    · exact .inl (one hp)
    · exact .inr ⟨x, hx, completes, key, owed, closing⟩
  constructor
  case single => exact single
  case pending => exact pending
  case exact =>
    intro inUse calm id
    constructor
    · rintro ⟨file, mem, rfl, marked⟩
      rcases pending inUse file mem marked with done | ⟨x, hx, completes, -⟩
      · exact done
      · rw [midway, List.any_eq_false] at calm
        exact (calm x hx completes).elim
    · intro outstanding
      obtain ⟨p, hp⟩ :=
        List.exists_mem_of_length_pos (Nat.lt_of_lt_of_eq Nat.one_pos outstanding.symm)
      obtain ⟨mem, tag, followUp, owner⟩ := mem_closesOf.1 hp
      have up := sane.upkeep.facade p mem (by rw [owner]; rfl)
      have alive : s.there := by rw [there, inUse, up]; rfl
      exact (course.kept start).marked alive p.key id ((fate p.key).closing hp)
  case returned =>
    rintro before x after p ending id tag followUp rest rfl ha owner fails
    obtain ⟨y, toX, step, fair, -⟩ := course.split
    have next : Next x y := .work step fair
    obtain ⟨⟨failure, agenda⟩, back⟩ := (toX.kept start).given_back (toX.sane start)
      (toX.fate start p.key) next step ha owner fails
    refine ⟨y, failure, step, agenda, fun alive => ?_⟩
    obtain ⟨file, mem, rfl, unmarked⟩ := back alive
    rw [there, Bool.and_eq_true] at alive
    exact usable_of_mem (next.sane (toX.sane start)) alive.1 mem unmarked
  case told =>
    rintro before x after key id tag failure followUp rest rfl called ha
    obtain ⟨-, toX, -⟩ := course.split
    obtain ⟨first, r, last, y, p, ending, tag', followUp', rest', rfl, called, toR, step, toY,
      fromY, hr, own, owner, gives⟩ := toX.completed_of_done start called ha
    refine ⟨first, r, last, p, ending, tag', followUp', rest', rfl, called, hr, own, owner,
      fails_of_gives gives, ?_⟩
    intro alive idle
    have next : Next r y := by
      obtain ⟨y', -, step', fair, -⟩ := toX.split
      exact .work step fair
    have back := ((toR.kept start).given_back (toR.sane start) (toR.fate start p.key) next step hr
      owner (fails_of_gives gives)).2
    obtain ⟨file, mem, rfl, unmarked⟩ := back (fromY.there_of_there (toY.sane start) alive)
    have still := toY.mem_of_idle start fromY alive mem unmarked idle
    rw [there, Bool.and_eq_true] at alive
    exact usable_of_mem (toX.sane start) alive.1 still unmarked

/-- Two files are opened and closed, and the second close is aborted: the first file is marked
with its close outstanding, and the second is neither. -/
theorem closing_marks_exact_of_two :
    ∃ steps s, Course (ofMount
        { info := { providerId := "p", fileSystemId := "f", displayName := "d" } }
        (.direct {}) true) steps s ∧ s.mount?.isSome ∧ s.midway = false ∧
      (s.closesOf ⟨2⟩).length = 1 ∧ (s.closesOf ⟨4⟩).length = 0 := by
  have run : ((ofMount { info := { providerId := "p", fileSystemId := "f", displayName := "d" } }
      (.direct {}) true).follow?
        (.call (.operate (.openFile "/a" .read) none []) ⟨0⟩ :: List.replicate 7 .work ++
          .call (.deliver (.given ⟨1⟩) (.success .nothing)) ⟨0⟩ :: List.replicate 8 .work ++
          .call (.operate (.openFile "/b" .read) none []) ⟨0⟩ :: List.replicate 7 .work ++
          .call (.deliver (.given ⟨3⟩) (.success .nothing)) ⟨0⟩ :: List.replicate 8 .work ++
          .call (.operate (.closeFile ⟨2⟩) none []) ⟨0⟩ :: List.replicate 7 .work ++
          .call (.operate (.closeFile ⟨4⟩) none []) ⟨0⟩ :: List.replicate 7 .work ++
          .call (.abort (.given ⟨6⟩)) ⟨0⟩ :: List.replicate 9 .work)).any
        fun s => s.mount?.isSome && !s.midway &&
          decide ((∃ file ∈ s.openFiles, file.id = ⟨2⟩ ∧ file.closing) ∧
            ¬ ∃ file ∈ s.openFiles, file.id = ⟨4⟩ ∧ file.closing) := by
    decide +kernel
  rw [Option.any_eq_true] at run
  obtain ⟨s, hs, run⟩ := run
  rw [Bool.and_eq_true, Bool.and_eq_true, Bool.not_eq_true', decide_eq_true_eq] at run
  obtain ⟨⟨inUse, calm⟩, first, second⟩ := run
  have marks := closing_marks_exact (course_of_follow? hs)
  refine ⟨_, s, course_of_follow? hs, inUse, calm, (marks.exact inUse calm _).1 first, ?_⟩
  have most := marks.single ⟨4⟩
  have none := mt (marks.exact inUse calm ⟨4⟩).2 second
  omega

end State

end FileRelay
