import FileRelay.Proofs.Debt
import FileRelay.Proofs.Filing
import FileRelay.Proofs.Joined

/-!
# Closing a file

From the call that closes a file until the callback of its caller comes up, the close is
*under way*.  As long as the mount is there, a file that is being closed is in the table and
marked, and no other close of it is under way; so the one close that ends may take the file
out, or clear the mark, without regard to any other.
-/

namespace FileRelay

/-- A close of a file is under way: the callback of its caller is neither next nor invoked. -/
inductive Trace.Closing (id : HandleId) : Trace → Prop
  | outstanding {p : Pending} {tag : Option String} {followUp : List Call}
      (owner : p.owner = .operation (.closing id) tag followUp) : Closing id { outstanding := [p] }
  | finish {p : Pending} {ending : Ending} {tag : Option String} {followUp : List Call}
      (owner : p.owner = .operation (.closing id) tag followUp) :
      Closing id { owed := [.finish p ending] }
  | complete {p : Pending} {ending : Ending} {tag : Option String} {followUp : List Call}
      (owner : p.owner = .operation (.closing id) tag followUp) :
      Closing id { owed := [.complete p ending] }

/-- A close becomes a request that names the opener of the file. -/
theorem Operation.closeFile_of_request {info : MountInfo} {mounted : Bool} {table : OpenFiles}
    {content : Request} {id : HandleId}
    (h : (Operation.closeFile id).request info mounted table = .ok content) :
    ∃ file ∈ table.files, file.id = id ∧ file.closing = false ∧
      content = .closeFile file.openedBy := by
  rw [Operation.request] at h
  cases permitted : info.permits mounted .closeFile with
  | error failure =>
    rw [permitted] at h
    cases h
  | ok =>
    rw [permitted] at h
    obtain ⟨file, mem, own, usable, h⟩ := OpenFiles.exists_of_use h
    cases h
    exact ⟨file, mem, own, usable, rfl⟩

namespace State

variable {b s t u v w : State} {task : Task} {rest : List Task} {key other : RequestKey}
  {p q : Pending} {ending : Ending} {tag : Option String} {followUp : List Call}
  {path : String} {mode : OpenMode} {id : HandleId} {operation : Operation}

/-! ## Where a close comes from -/

/-- What does not come in parts is waited for as it was. -/
theorem collectAll_of_whole {expects : Expectation} (whole : expects.streams = false)
    (parts : List Reply) : expects.collectAll parts = expects := by
  induction parts with
  | nil => rfl
  | cons part parts ih =>
    rw [Expectation.collectAll_cons]
    cases expects with
    | listing | data => cases whole
    | _ => exact ih

/-- Whoever waits for a reply that does not come in parts has waited for it from the start. -/
theorem eq_of_collectAll {expects whole : Expectation} {parts : List Reply}
    (h : expects.collectAll parts = whole) (hw : whole.streams = false) : expects = whole := by
  rw [← h, Expectation.streams_collectAll] at hw
  rw [← h, collectAll_of_whole hw]

theorem eq_of_continues {o : Owner} {expects : Expectation} (hw : expects.streams = false)
    (same : o.Continues (.operation expects tag followUp)) :
    o = .operation expects tag followUp := by
  generalize hr : Owner.operation expects tag followUp = later at same
  cases same with
  | client => rfl
  | operation first parts =>
    cases hr
    exact congrArg (Owner.operation · tag followUp) (eq_of_collectAll rfl hw)

/-- A close that is under way was so before, or is the one that is called. -/
theorem Next.closing_or_starts (h : Next s t) (hs : s.Sane) (fate : s.Fate key)
    (closing : (t.trace key).Closing id) :
    (s.trace key).Closing id ∨
      ∃ tag followUp, s.Starts t (.closeFile id) tag followUp key := by
  rcases h.becomes hs fate with same | ⟨task, rest, ha, step, becomes⟩
  · exact .inl (same ▸ closing)
  · generalize hx : s.trace key = before at becomes
    generalize hy : t.trace key = after at becomes closing
    cases becomes with
    | stay => exact .inl closing
    | @enter p owner named same =>
      cases closing with
      | outstanding hp =>
        obtain ⟨mem, rfl⟩ := mem_of_trace (congrArg Trace.outstanding hy)
        have born : s.Bears t task p := ⟨h, step, ⟨rest, ha⟩, ⟨owner, named, same⟩, hx, hy⟩
        obtain ⟨operation, tag', followUp', parts, starts, ho⟩ :=
          born.starts (by rw [hp]; rfl) (h.sane hs)
        rw [ho, Owner.operation.injEq] at hp
        obtain ⟨collected, rfl, rfl⟩ := hp
        have called := eq_of_collectAll collected rfl
        cases operation with
        | closeFile =>
          cases called
          exact .inr ⟨_, _, starts⟩
        | _ => cases called
    | goOn same =>
      cases closing with
      | outstanding hq =>
        have owner := same.owner
        rw [hq] at owner
        exact .inl (.outstanding (eq_of_continues rfl owner))
    | leave =>
      cases closing with
      | finish owner => exact .inl (.outstanding owner)
    | finish =>
      cases closing with
      | complete owner => exact .inl (.finish owner)
    | lose | call | settle | pay => cases closing

/-- An operation is accepted only as the mount allows it, and with one request. -/
theorem Starts.accepted (h : v.Starts w operation tag followUp key) (hv : v.Sane) :
    ∃ p m content, p.key = key ∧ w.ledger = v.ledger.insert p ∧ v.heldMount? = some m ∧
      operation.request m.settings.info m.mounted m.files = .ok content ∧
      w.openFiles = v.filesAfter operation := by
  obtain ⟨self, rest, called⟩ := h.call
  obtain ⟨task, rest', ha, deed⟩ := hv.exists_deed h.step
  obtain ⟨rfl, rfl⟩ := List.cons_eq_cons.1 (ha.symm.trans called)
  obtain ⟨q, found, -⟩ := h.after
  obtain ⟨mem, own⟩ := mem_of_findExact? found
  have new : ∀ r ∈ v.ledger.entries, r.key ≠ key := by
    have absent := h.before
    rw [Ledger.findExact?, List.find?_eq_none] at absent
    simpa using absent
  cases deed with
  | calm _ _ calm =>
    obtain ⟨r, hr, alike⟩ := calm.entries q mem
    exact (new r hr (alike.key.symm.trans own)).elim
  | create client enters =>
    rw [← Option.some.inj enters.owner] at client
    cases client
  | @operate _ _ _ _ m content p _ _ _ enters held request _ _ _ files =>
    have entered := enters.ledger
    rw [entered] at mem
    rcases List.mem_append.1 mem with old | last
    · exact (new q (List.mem_filter.1 old).1 own).elim
    · rw [List.mem_singleton.1 last] at own
      exact ⟨p, m, content, own, entered, held, request, files⟩
  | take _ delivery => cases delivery

/-- An operation whose request is registered is accepted. -/
theorem Enters.starts {self : RequestId}
    (enters : Enters (.issue (.operate operation tag followUp) self) p { s with agenda := rest } t)
    (called : s.agenda = .issue (.operate operation tag followUp) self :: rest)
    (step : s.step = some t) (ht : t.Sane) (fate : s.Fate p.key) :
    s.Starts t operation tag followUp p.key := by
  have absent : s.ledger.findExact? p.key = none := by
    cases found : s.ledger.findExact? p.key with
    | none => rfl
    | some q =>
      obtain ⟨mem, own⟩ := mem_of_findExact? found
      rw [← own] at fate
      have known := (fate.of_mem mem).1
      rw [own] at known
      exact (Nat.lt_irrefl _ (enters.serial ▸ known)).elim
  have entered : p ∈ t.ledger.entries := by
    rw [enters.ledger]
    exact List.mem_append_right _ (List.mem_singleton_self p)
  exact ⟨step, ⟨self, rest, called⟩, absent, p, findExact?_of_mem ht.accounted entered,
    Option.some.inj enters.owner ▸ .refl _⟩

/-- A step accepts one operation. -/
theorem Starts.key_eq {operation' : Operation} {tag' : Option String} {followUp' : List Call}
    (h : v.Starts w operation tag followUp key) (k : v.Starts w operation' tag' followUp' other)
    (hv : v.Sane) : other = key := by
  obtain ⟨p, -, -, own, ledger, -⟩ := h.accepted hv
  obtain ⟨q, -, -, own', ledger', -⟩ := k.accepted hv
  have entries := congrArg Ledger.entries (ledger.symm.trans ledger')
  have last := (List.append_inj' entries rfl).2
  rw [← own, ← own', (List.cons.inj last).1]

/-! ## What a close may rely on -/

/-- Closes that are under way, and the files that they are about. -/
structure Kept (s : State) : Prop where
  /-- The table is emptied only once the mount is down. -/
  clear : ∀ aborted, .closeFiles aborted ∈ s.agenda → s.up = false
  /-- A file that is being closed is in the table and marked. -/
  marked : s.there → ∀ key id, (s.trace key).Closing id →
    ∃ file ∈ s.openFiles, file.id = id ∧ file.closing
  /-- No two closes of a file are under way. -/
  single : s.there → ∀ key other id, (s.trace key).Closing id → (s.trace other).Closing id →
    other = key

theorem Kept.not_mem_closeFiles (h : s.Kept) (alive : s.there) :
    ∀ aborted, .closeFiles aborted ∉ s.agenda := by
  intro aborted mem
  rw [there, Bool.and_eq_true, h.clear aborted mem] at alive
  cases alive.2

/-- A file that stands under an id is the only one. -/
theorem Accounted.eq_of_handle (hs : s.Accounted) {file other : OpenFile}
    (mem : file ∈ s.openFiles) (mem' : other ∈ s.openFiles) (same : other.id = file.id) :
    other = file :=
  List.inj_on_of_nodup_map hs.nodup_handles mem' mem same

theorem mem_mark {files : List OpenFile} {file : OpenFile} (id : HandleId) (closing : Bool)
    (h : file ∈ files) : (if file.id = id then { file with closing } else file) ∈
      (OpenFiles.mark ⟨files⟩ id closing).files :=
  List.mem_map.2 ⟨file, h, rfl⟩

/-- Once its callback is next, a close is under way no longer. -/
theorem not_closing_of_done {result : Except Failure Value}
    (ha : s.agenda = .done key tag result followUp :: rest) : ¬ (s.trace key).Closing id := by
  intro closing
  have first : .done key tag result followUp ∈ (s.trace key).owed := by
    rw [trace, ha]
    exact List.mem_filter.2 ⟨List.mem_cons_self, by simp [Task.owed?]⟩
  generalize s.trace key = tr at closing first
  cases closing with
  | outstanding => cases first
  | finish | complete =>
    rw [List.mem_singleton] at first
    cases first

/-- A file may be closed only if it may be used. -/
theorem exists_usable {m : Mount} {content : Request} (held : s.heldMount? = some m)
    (h : (Operation.closeFile id).request m.settings.info m.mounted m.files = .ok content) :
    ∃ file ∈ s.openFiles, file.id = id ∧ file.closing = false := by
  rw [openFiles_of_mount (mount_of_heldMount? held)]
  obtain ⟨file, mem, own, usable, -⟩ := Operation.closeFile_of_request h
  exact ⟨file, mem, own, usable⟩

/-- A close is called only of a file that is not being closed. -/
theorem Kept.not_closing_of_starts (h : s.Kept) (hs : s.Sane)
    (starts : s.Starts t (.closeFile id) tag followUp other) : ¬ (s.trace key).Closing id := by
  intro closing
  obtain ⟨-, m, content, -, -, held, request, -⟩ := starts.accepted hs
  obtain ⟨usable, mem', same, open_⟩ := exists_usable held request
  obtain ⟨file, mem, rfl, marked⟩ := h.marked (there_of_request held request) key id closing
  rw [hs.accounted.eq_of_handle mem mem' same, marked] at open_
  cases open_

section step

variable (h : s.Kept) (hs : s.Sane) (hn : Next s t) (ht : t.there)
include h hs hn ht

theorem Kept.marked_of_step (fate : ∀ key, s.Fate key) (step : s.step = some t)
    (closing : (t.trace key).Closing id) : ∃ file ∈ t.openFiles, file.id = id ∧ file.closing := by
  have alive := hn.there_of_there hs ht
  rcases hn.closing_or_starts hs (fate key) closing with before | ⟨tag, followUp, starts⟩
  · obtain ⟨file, mem, rfl, marked⟩ := h.marked alive key id before
    cases filing_of_step hs alive (h.not_mem_closeFiles alive) step with
    | same _ _ files => exact ⟨file, files ▸ mem, rfl, marked⟩
    | mark _ _ files =>
      refine ⟨_, files ▸ mem_mark _ _ mem, ?_, ?_⟩
      · split <;> rfl
      · split
        · rfl
        · exact marked
    | record _ _ _ _ _ files =>
      exact ⟨file, files.mem_iff.2 (List.mem_cons_of_mem _ mem), rfl, marked⟩
    | @close p ending _ _ other result _ first owner _ files agenda =>
      -- The close that ends is the only one of its file, and it is under way no longer.
      have apart : file.id ≠ other := by
        rintro rfl
        obtain ⟨trace, -⟩ := (fate p.key).carries first rfl
        have same := h.single alive key p.key file.id before (trace ▸ .complete owner)
        exact not_closing_of_done agenda (same ▸ closing)
      rw [files]
      split
      · exact ⟨file, List.mem_filter.2 ⟨mem, by simpa using apart⟩, rfl, marked⟩
      · have kept := mem_mark other false mem
        rw [if_neg apart] at kept
        exact ⟨file, kept, rfl, marked⟩
  · obtain ⟨-, m, content, -, -, held, request, files⟩ := starts.accepted hs
    obtain ⟨file, mem, rfl, -⟩ := exists_usable held request
    refine ⟨{ file with closing := true }, ?_, rfl, rfl⟩
    rw [files]
    have marked := mem_mark file.id true mem
    rwa [if_pos rfl] at marked

theorem Kept.single_of_step (fate : ∀ key, s.Fate key) (closing : (t.trace key).Closing id)
    (closing' : (t.trace other).Closing id) : other = key := by
  have alive := hn.there_of_there hs ht
  rcases hn.closing_or_starts hs (fate key) closing with before | ⟨_, _, starts⟩
  · rcases hn.closing_or_starts hs (fate other) closing' with before' | ⟨_, _, starts'⟩
    · exact h.single alive key other id before before'
    · exact (h.not_closing_of_starts hs starts' before).elim
  · rcases hn.closing_or_starts hs (fate other) closing' with before' | ⟨_, _, starts'⟩
    · exact (h.not_closing_of_starts hs starts before').elim
    · exact starts.key_eq starts' hs

end step

/-! ## A run -/

theorem Next.clear (h : Next s t) (hs : s.Sane)
    (clear : ∀ aborted, .closeFiles aborted ∈ s.agenda → s.up = false) (aborted : Nat)
    (ahead : .closeFiles aborted ∈ t.agenda) : t.up = false := by
  have later : s.up = false → t.up = false := by
    intro down
    cases up : t.up with
    | false => rfl
    | true => rw [← down, h.up_of_up hs up]
  cases h with
  | work step fair =>
    obtain ⟨task, rest, ha, deed⟩ := hs.exists_deed step
    cases deed.brings ahead with
    | old old => exact later (clear aborted (ha ▸ List.mem_cons_of_mem _ old))
    | sets sets =>
      cases sets with
      | calm calm => cases calm
      | closeFiles =>
        rw [step_of_agenda ha] at step
        cases step
        exact up_takeDown _
  | call call self =>
    rcases List.mem_cons.1 ahead with same | old
    · cases same
    · exact clear aborted old
  | rewind n => exact clear aborted ahead

theorem Next.kept (hn : Next s t) (hs : s.Sane) (fate : ∀ key, s.Fate key) (h : s.Kept) :
    t.Kept := by
  refine ⟨hn.clear hs h.clear, ?_, fun ht _ _ _ => h.single_of_step hs hn ht fate⟩
  intro ht key id closing
  cases hn with
  | work step fair => exact h.marked_of_step hs (.work step fair) ht fate step closing
  | call call self =>
    rw [trace_push_quiet s (by simp [Task.owed?])] at closing
    exact h.marked ((Next.call call self).there_of_there hs ht) key id closing
  | rewind n => exact h.marked ((Next.rewind n).there_of_there hs ht) key id closing

theorem Start.kept (h : Start s) : s.Kept := by
  have nothing : ∀ {u : State}, u.agenda = [] → (∀ key, u.trace key = {}) → u.Kept := by
    intro u agenda none
    refine ⟨?_, ?_, ?_⟩
    · intro aborted ahead
      rw [agenda] at ahead
      cases ahead
    · intro _ key id closing
      rw [none] at closing
      cases closing
    · intro _ key other id closing
      rw [none] at closing
      cases closing
  cases h <;> exact nothing rfl fun _ => rfl

/-- What closes rely on holds in every run. -/
theorem Reaches.kept {s₀ : State} (start : Start s₀) (h : Reaches s₀ s) : s.Kept :=
  h.invariant start.kept fun _ _ hu hn hk =>
    hn.kept (hu.sane start.sane) (fun key => hu.fate start.sane (start.fate key)) hk

end State

end FileRelay
