import FileRelay.Proofs.Ownership

/-!
# The trace of a request

A state shows three things of a request: its entry in the ledger, the tasks that owe it
its callback, and the events that were its callback's invocation.  Together they are the
*trace* of the request, and there is never more than one thing in it.  A request that is
registered is in the ledger; the one step that takes it out makes a task of it, and this
task passes the debt on until it is paid.  Only a request that goes down with its manager
leaves no trace.
-/

namespace FileRelay

/-- A task that brings about the callback of a request which ended in a given way. -/
inductive Task.Carries (p : Pending) (ending : Ending) : Task → Prop
  | finish : Carries p ending (.finish p ending)
  | complete : Carries p ending (.complete p ending)
  | done {expects : Expectation} {tag : Option String} {followUp : List Call}
      {result : Except Failure Value} (owner : p.owner = .operation expects tag followUp)
      (gives : expects.Gives ending result) : Carries p ending (.done p.key tag result followUp)

/-- The invocation of the callback of a request which ended in a given way: the one who
waits is given what the ending says. -/
inductive Event.Reports (p : Pending) (ending : Ending) : Event → Prop
  | client {tag : Option String} {onSuccess onError onPart : List Call}
      (owner : p.owner = .client tag onSuccess onError onPart) :
      Reports p ending (ending.callback p.key tag)
  | operation {expects : Expectation} {tag : Option String} {followUp : List Call}
      {result : Except Failure Value} (owner : p.owner = .operation expects tag followUp)
      (gives : expects.Gives ending result) : Reports p ending (.done p.key tag result)

/-- What a state shows of a request. -/
@[ext]
structure Trace where
  outstanding : List Pending := []
  owed : List Task := []
  paid : List Event := []

/-- The trace of a request that has ended in a given way: one task owes it its callback,
or one event was its invocation. -/
inductive Trace.Settled (p : Pending) (ending : Ending) : Trace → Prop
  | owed {task : Task} (h : task.Carries p ending) : Settled p ending { owed := [task] }
  | paid {event : Event} (h : event.Reports p ending) : Settled p ending { paid := [event] }

theorem Trace.Settled.outstanding_eq_nil {trace : Trace} {p : Pending} {ending : Ending}
    (h : trace.Settled p ending) : trace.outstanding = [] := by
  cases h <;> rfl

/-- Once a request has ended, its callback is owed or was invoked, and never both. -/
theorem Trace.Settled.owed_or_paid {trace : Trace} {p : Pending} {ending : Ending}
    (h : trace.Settled p ending) :
    (∃ task, task.Carries p ending ∧ trace.owed = [task] ∧ trace.paid = []) ∨
      ∃ event, event.Reports p ending ∧ trace.owed = [] ∧ trace.paid = [event] := by
  cases h with
  | owed carries => exact .inl ⟨_, carries, rfl, rfl⟩
  | paid reports => exact .inr ⟨_, reports, rfl, rfl⟩

namespace State

variable {b s t u v : State} {task : Task} {rest : List Task} {key : RequestKey} {p : Pending}

/-- What a state shows of a request. -/
def trace (s : State) (key : RequestKey) : Trace where
  outstanding := s.ledger.entries.filter (·.key = key)
  owed := s.agenda.filter (·.owed? = some key)
  paid := s.history.filter (·.paid? = some key)

@[simp] theorem mem_outstanding :
    p ∈ (s.trace key).outstanding ↔ p ∈ s.ledger.entries ∧ p.key = key := by
  rw [trace, List.mem_filter, decide_eq_true_eq]

theorem mem_of_trace (h : (s.trace key).outstanding = [p]) :
    p ∈ s.ledger.entries ∧ p.key = key := by
  rw [← mem_outstanding, h]
  exact List.mem_singleton_self p

/-- The entry in a trace is the only one of that key. -/
theorem eq_of_trace {q : Pending} (h : (s.trace key).outstanding = [p])
    (hq : q ∈ s.ledger.entries) (hk : q.key = key) : q = p := by
  have hm := mem_outstanding.2 ⟨hq, hk⟩
  rw [h] at hm
  exact List.mem_singleton.1 hm

theorem not_mem_of_trace {q : Pending} (h : (s.trace key).outstanding = [])
    (hq : q ∈ s.ledger.entries) : q.key ≠ key := by
  intro hk
  have hm := mem_outstanding.2 ⟨hq, hk⟩
  rw [h] at hm
  cases hm

/-- A callback that no task is to bring about any more has been invoked. -/
theorem paid_of_clear {ending : Ending} (settled : (s.trace key).Settled p ending)
    (clear : ∀ x ∈ s.agenda, x.owed? ≠ some key) :
    ∃ event, event.Reports p ending ∧ s.trace key = { paid := [event] } := by
  have none : (s.trace key).owed = [] := by
    rw [trace, List.filter_eq_nil_iff]
    simpa using clear
  rcases settled.owed_or_paid with ⟨task, -, owed, -⟩ | ⟨event, reports, owed, paid⟩
  · rw [none] at owed
    cases owed
  · exact ⟨event, reports, Trace.ext settled.outstanding_eq_nil owed paid⟩

/-- An outstanding request is the only one of its id. -/
theorem Accounted.eq_of_id {q : Pending} (hs : s.Accounted) (hp : p ∈ s.ledger.entries)
    (hq : q ∈ s.ledger.entries) (hid : q.id = p.id) : q = p :=
  List.inj_on_of_nodup_map hs.nodup_ids hq hp hid

/-- The ledger holds a request once. -/
theorem Accounted.outstanding_of_mem (hs : s.Accounted) (hp : p ∈ s.ledger.entries) :
    (s.trace p.key).outstanding = [p] := by
  have perm := (perm_cons_filter_ne hs.nodup_ids hp).filter (·.key = p.key)
  rw [List.filter_cons_of_pos (by simp)] at perm
  have none : ((s.ledger.entries.filter fun x => x.id ≠ p.id).filter (·.key = p.key)) = [] := by
    rw [List.filter_eq_nil_iff]
    intro q hq
    have hne : q.id ≠ p.id := by simpa using (List.mem_filter.1 hq).2
    simp only [decide_eq_true_eq]
    exact fun hk => hne (congrArg RequestKey.id hk)
  rw [none] at perm
  exact List.perm_singleton.1 perm

theorem filter_owed_of_quiet {tasks : List Task} (h : ∀ x ∈ tasks, x.owed? = none) :
    tasks.filter (·.owed? = some key) = [] := by
  rw [List.filter_eq_nil_iff]
  intro x hx
  simp [h x hx]

theorem trace_push_quiet (s : State) {tasks : List Task} (h : ∀ x ∈ tasks, x.owed? = none) :
    (s.push tasks).trace key = s.trace key := by
  rw [trace, trace, push, List.filter_append, filter_owed_of_quiet h, List.nil_append]

theorem trace_push_of_owed (s : State) (h : task.owed? = some key) :
    (s.push [task]).trace key = { s.trace key with owed := task :: (s.trace key).owed } := by
  rw [trace, trace, push, List.singleton_append, List.filter_cons_of_pos (by simpa using h)]

theorem trace_push_of_other (s : State) (h : task.owed? ≠ some key) :
    (s.push [task]).trace key = s.trace key := by
  rw [trace, trace, push, List.singleton_append, List.filter_cons_of_neg (by simpa using h)]

theorem trace_emit_of_paid (s : State) {event : Event} (h : event.paid? = some key) :
    (s.emit event).trace key = { s.trace key with paid := event :: (s.trace key).paid } := by
  rw [trace, trace, emit, List.filter_cons_of_pos (by simpa using h)]

theorem trace_emit_of_other (s : State) {event : Event} (h : event.paid? ≠ some key) :
    (s.emit event).trace key = s.trace key := by
  rw [trace, trace, emit, List.filter_cons_of_neg (by simpa using h)]

/-! ## A move -/

/-- What a move may do to a trace. -/
inductive Shift (b : State) (task : Task) (key : RequestKey) (s t : State) : Prop
  /-- An entry may move on. -/
  | stay (f : Pending → Pending) (same : ∀ p : Pending, p.Continues (f p))
      (trace : t.trace key = { s.trace key with outstanding := (s.trace key).outstanding.map f })
  /-- The request leaves the ledger, and a task owes it its callback. -/
  | leave {p : Pending} {ending : Ending} (entry : (s.trace key).outstanding = [p])
      (old : p ∈ b.ledger.entries) (ends : task.ending? b p = some ending)
      (trace : t.trace key = { s.trace key with
        outstanding := [], owed := .finish p ending :: (s.trace key).owed })
  /-- The request enters the ledger. -/
  | enter {p : Pending} (new : key.serial = s.ledger.nextSerial)
      (owner : task.owner? = some p.owner) (next : t.ledger.nextSerial = s.ledger.nextSerial + 1)
      (trace : t.trace key = { s.trace key with outstanding := (s.trace key).outstanding ++ [p] })

theorem Shift.of_eq (h : t.trace key = s.trace key) : Shift b task key s t :=
  .stay id Pending.Continues.refl (by rw [h, List.map_id])

/-- A request that is taken out of the ledger shows in it no longer. -/
theorem trace_pull (s : State) (p : Pending) :
    (s.pull p).trace p.key = { s.trace p.key with outstanding := [] } := by
  refine Trace.ext ?_ rfl rfl
  rw [trace, State.pull, Ledger.erase]
  dsimp only
  rw [List.filter_filter, List.filter_eq_nil_iff]
  intro q _ hq
  rw [Bool.and_eq_true, decide_eq_true_eq, decide_eq_true_eq] at hq
  exact hq.2 (congrArg RequestKey.id hq.1)

/-- Taking a request out of the ledger leaves the others in. -/
theorem Accounted.trace_pull_of_other (hs : s.Accounted) (hp : p ∈ s.ledger.entries)
    (hk : p.key ≠ key) : (s.pull p).trace key = s.trace key := by
  refine Trace.ext ?_ rfl rfl
  rw [trace, State.pull, Ledger.erase]
  dsimp only
  rw [List.filter_filter]
  apply List.filter_congr
  intro q hq
  by_cases hqk : q.key = key
  · have hid : q.id ≠ p.id := by
      intro hid
      rw [hs.eq_of_id hp hq hid] at hqk
      exact hk hqk
    simp [hqk, hid]
  · simp [hqk]

theorem Move.shift (h : Move b task s t) (hs : s.Accounted) (key : RequestKey) :
    Shift b task key s t := by
  cases h with
  | keep h =>
    obtain ⟨f, hf, entries⟩ := h.entries
    obtain ⟨tasks, agenda, quiet⟩ := h.agenda
    obtain ⟨events, history, silent⟩ := h.history
    refine .stay f hf (Trace.ext ?_ ?_ ?_)
    · rw [trace, trace, entries, List.filter_map]
      refine congrArg (List.map f) (List.filter_congr ?_)
      intro p _
      rw [Function.comp_apply, (hf p).key]
    · rw [trace, trace, agenda, List.filter_append, filter_owed_of_quiet quiet, List.nil_append]
    · rw [trace, trace, history, List.filter_append]
      have none : events.filter (·.paid? = some key) = [] := by
        rw [List.filter_eq_nil_iff]
        intro x hx
        simp [silent x hx]
      rw [none, List.nil_append]
  | @register p pool _ owner _ drawn serial =>
    have entries := hs.entries_insert drawn
    by_cases hk : p.key = key
    · refine .enter (p := p) ?_ owner rfl ?_
      · rw [← hk]
        exact serial
      · rw [trace, trace, entries, List.filter_append]
        simp [hk]
    · refine .of_eq ?_
      rw [trace, trace, entries, List.filter_append]
      simp [hk]
  | @pull p ending mem old ends =>
    by_cases hk : p.key = key
    · subst hk
      refine .leave (hs.outstanding_of_mem mem) old ends ?_
      rw [trace_push_of_owed _ rfl, trace_pull]
    · have other : (Task.finish p ending).owed? ≠ some key := fun owed => hk (Option.some.inj owed)
      refine .of_eq ?_
      rw [trace_push_of_other _ other]
      exact hs.trace_pull_of_other mem hk
  | @drain mount old _ =>
    have owed : ((s.ledger.entries.map fun p => Task.finish p .shutDown) ++ s.agenda).filter
        (·.owed? = some key) =
          (s.trace key).outstanding.map (fun p => Task.finish p .shutDown) ++
            (s.trace key).owed := by
      rw [List.filter_append, List.filter_map]
      congr 2
      apply List.filter_congr
      intro p _
      simp [Task.owed?]
    cases hp : (s.trace key).outstanding with
    | nil =>
      refine .stay id Pending.Continues.refl (Trace.ext ?_ ?_ rfl)
      · rw [hp]
        rfl
      · rw [hp] at owed
        exact owed
    | cons p others =>
      have first : p ∈ (s.trace key).outstanding := hp ▸ List.mem_cons_self
      obtain ⟨mem, hk⟩ := mem_outstanding.1 first
      have entry := hs.outstanding_of_mem mem
      rw [hk] at entry
      rw [entry] at owed
      exact .leave entry (old p mem).1 (old p mem).2 (Trace.ext rfl owed rfl)
  | mark | add | remove | clear | share => exact .of_eq rfl

theorem Move.nextSerial_le (h : Move b task s t) : s.ledger.nextSerial ≤ t.ledger.nextSerial := by
  cases h with
  | keep h => exact Nat.le_of_eq h.nextSerial.symm
  | register => exact Nat.le_succ _
  | pull | drain | mark | add | remove | clear | share => exact Nat.le_refl _

/-! ## A change -/

theorem Change.nextSerial_le (h : Change b task s t) :
    s.ledger.nextSerial ≤ t.ledger.nextSerial := by
  induction h with
  | refl => exact Nat.le_refl _
  | tail _ hm ih => exact Nat.le_trans ih hm.nextSerial_le

/-- Without an entry in the ledger, a trace stays as it is. -/
theorem Change.trace_of_absent (h : Change b task s t) (hs : s.Accounted)
    (known : key.serial < s.ledger.nextSerial) (absent : (s.trace key).outstanding = []) :
    t.trace key = s.trace key := by
  induction h with
  | refl => rfl
  | @tail m t hsm hm ih =>
    have h : Change b task s m := hsm
    rw [← ih] at absent ⊢
    cases hm.shift (h.accounted hs) key with
    | stay f same trace => rw [trace, absent, List.map_nil, ← absent]
    | leave entry => simp [absent] at entry
    | enter new =>
      have le := h.nextSerial_le
      omega

/-- An outstanding request stays so, or leaves the ledger as the task says; it was there
before the step. -/
theorem Change.trace_of_outstanding (h : Change b task s t) (hs : s.Accounted)
    (known : key.serial < s.ledger.nextSerial) (entry : s.trace key = { outstanding := [p] }) :
    (∃ q, p.Continues q ∧ t.trace key = { outstanding := [q] }) ∨
      ∃ q ending, q ∈ b.ledger.entries ∧ q.key = key ∧ task.ending? b q = some ending ∧
        t.trace key = { owed := [.finish q ending] } := by
  induction h with
  | refl => exact .inl ⟨p, .refl p, entry⟩
  | @tail m t hsm hm ih =>
    have h : Change b task s m := hsm
    have known' : key.serial < m.ledger.nextSerial := Nat.lt_of_lt_of_le known h.nextSerial_le
    rcases ih with ⟨q, same, hq⟩ | ⟨q, ending, old, hk, ends, hq⟩
    · cases hm.shift (h.accounted hs) key with
      | stay f hf trace =>
        refine .inl ⟨f q, same.trans (hf q), ?_⟩
        rw [trace, hq]
        rfl
      | @leave r ending entry old ends trace =>
        refine .inr ⟨r, ending, old, (mem_of_trace entry).2, ends, ?_⟩
        rw [trace, hq]
      | enter new => omega
    · refine .inr ⟨q, ending, old, hk, ends, ?_⟩
      have absent := (Change.move hm).trace_of_absent (h.accounted hs) known' (by rw [hq])
      rw [absent, hq]

/-- A request that is yet to come may come to be outstanding, for an owner whose call the
task is. -/
theorem Change.trace_of_nothing (h : Change b task s t) (hs : s.Accounted)
    (nothing : s.trace key = {}) (new : (b.trace key).outstanding = []) :
    t.trace key = {} ∨ (key.serial < t.ledger.nextSerial ∧ ∃ p owner, task.owner? = some owner ∧
      owner.Continues p.owner ∧ t.trace key = { outstanding := [p] }) := by
  induction h with
  | refl => exact .inl nothing
  | @tail m t hsm hm ih =>
    have h : Change b task s m := hsm
    rcases ih with nothing | ⟨born, p, owner, ho, same, entry⟩
    · cases hm.shift (h.accounted hs) key with
      | stay f hf trace =>
        rw [nothing, List.map_nil] at trace
        exact .inl trace
      | leave entry =>
        rw [nothing] at entry
        cases entry
      | @enter p hk owner next trace =>
        refine .inr ⟨by omega, p, p.owner, owner, .refl _, ?_⟩
        rw [trace, nothing]
        rfl
    · have born' : key.serial < t.ledger.nextSerial := Nat.lt_of_lt_of_le born hm.nextSerial_le
      rcases (Change.move hm).trace_of_outstanding (h.accounted hs) born entry with
        ⟨q, hpq, hq⟩ | ⟨q, ending, old, hk, -⟩
      · exact .inr ⟨born', q, owner, ho, same.trans hpq.owner, hq⟩
      · exact (not_mem_of_trace new old hk).elim

/-! ## Passing the debt on -/

theorem Pass.owner?_eq_none (h : Pass task s t) : task.owner? = none := by
  cases h <;> rfl

theorem owed?_of_carries {ending : Ending} (h : task.Carries p ending) :
    task.owed? = some p.key := by
  cases h <;> rfl

theorem paid?_of_reports {ending : Ending} {event : Event} (h : event.Reports p ending) :
    event.paid? = some p.key := by
  cases h with
  | client =>
    rw [Ending.callback]
    split <;> rfl
  | operation => rfl

theorem paid?_callback (key : RequestKey) (tag : Option String) (ending : Ending) :
    (ending.callback key tag).paid? = some key := by
  rw [Ending.callback]
  split <;> rfl

/-- No serial number is taken back until a debt is passed on. -/
theorem Change.nextSerial_le_pass (h : Change b task s u) (pass : Pass task u v) :
    s.ledger.nextSerial ≤ v.ledger.nextSerial := by
  rw [pass.frame.1]
  exact h.nextSerial_le

/-- Passing the debt for one request on leaves the others alone. -/
theorem Pass.trace_of_other (h : Pass task s t) (other : task.owed? ≠ some key) :
    t.trace key = s.trace key := by
  cases h with
  | finish | wait | operation => exact trace_push_of_other _ other
  | done => exact trace_emit_of_other _ other
  | @client _ p ending tag =>
    refine trace_emit_of_other _ ?_
    rw [paid?_callback]
    exact other

/-- Whoever is owed a callback is owed it still, or was given it. -/
theorem Pass.settled {ending : Ending} (h : Pass task s t) (carries : task.Carries p ending)
    (nothing : s.trace p.key = {}) : (t.trace p.key).Settled p ending := by
  have push : ∀ x : Task, x.Carries p ending → ((s.push [x]).trace p.key).Settled p ending := by
    intro x hx
    rw [trace_push_of_owed _ (owed?_of_carries hx), nothing]
    exact .owed hx
  have emit : ∀ x : Event, x.Reports p ending → ((s.emit x).trace p.key).Settled p ending := by
    intro x hx
    rw [trace_emit_of_paid _ (paid?_of_reports hx), nothing]
    exact .paid hx
  cases carries with
  | finish =>
    cases h with
    | finish => exact push _ .complete
  | complete =>
    cases h with
    | wait => exact push _ .complete
    | client _ owner => exact emit _ (.client owner)
    | operation _ owner gives => exact push _ (.done owner gives)
  | done owner gives =>
    cases h with
    | done => exact emit _ (.operation owner gives)

/-! ## A step -/

theorem trace_pop_of_other (ha : b.agenda = task :: rest) (other : task.owed? ≠ some key) :
    ({ b with agenda := rest } : State).trace key = b.trace key := by
  rw [trace, trace, ha, List.filter_cons_of_neg (by simpa using other)]

theorem owed?_ne_of_trace (ha : b.agenda = task :: rest) (h : (b.trace key).owed = []) :
    task.owed? ≠ some key := by
  intro ho
  rw [trace, ha, List.filter_cons_of_pos (by simpa using ho)] at h
  cases h

/-- The first task that owes a callback is the only one. -/
theorem carries_of_settled {ending : Ending} (ha : b.agenda = task :: rest)
    (settled : (b.trace p.key).Settled p ending) (owed : task.owed? = some p.key) :
    task.Carries p ending ∧ ({ b with agenda := rest } : State).trace p.key = {} := by
  have first : (b.trace p.key).owed = task :: rest.filter (·.owed? = some p.key) := by
    rw [trace, ha, List.filter_cons_of_pos (by simpa using owed)]
  have absent := settled.outstanding_eq_nil
  generalize ht : b.trace p.key = tr at settled first absent
  cases settled with
  | owed carries =>
    obtain ⟨rfl, hrest⟩ := List.cons_eq_cons.1 first
    have outstanding := congrArg Trace.outstanding ht
    have paid := congrArg Trace.paid ht
    exact ⟨carries, Trace.ext outstanding hrest.symm paid⟩
  | paid => cases first

theorem Effect.nextSerial_le (h : Effect b task { b with agenda := rest } t) :
    b.ledger.nextSerial ≤ t.ledger.nextSerial := by
  cases h with
  | change _ _ h => exact h.nextSerial_le
  | @settle _ _ u v _ h pass k =>
    exact Nat.le_trans (h.nextSerial_le_pass pass) k.nextSerial_le
  | keepManager | dropManager | keepMount | dropMount => exact Nat.le_refl _

/-- Without an entry in the ledger, and with no debt paid, a trace stays as it is. -/
theorem Effect.trace_of_absent (h : Effect b task { b with agenda := rest } t)
    (ha : b.agenda = task :: rest) (hs : b.Accounted) (known : key.serial < b.ledger.nextSerial)
    (other : task.owed? ≠ some key) (absent : (b.trace key).outstanding = []) :
    t.trace key = b.trace key := by
  have hp := hs.pop ha
  have popped := trace_pop_of_other ha other
  rw [← popped] at absent
  cases h with
  | change _ _ h => rw [h.trace_of_absent hp known absent, popped]
  | @settle _ _ u v _ h pass k =>
    have hu := h.trace_of_absent hp known absent
    have hv := pass.trace_of_other other
    rw [hu] at hv
    have known' := Nat.lt_of_lt_of_le known (h.nextSerial_le_pass pass)
    rw [k.trace_of_absent (pass.accounted (h.accounted hp)) known' (by rw [hv, absent]), hv, popped]
  | keepManager | keepMount => exact popped
  | dropManager =>
    rw [← popped]
    exact Trace.ext absent.symm rfl rfl
  | dropMount =>
    rw [trace_push_quiet _ (by simp [Task.owed?]), popped]

/-- What becomes of an outstanding request: it stays so, or ends as the task says, or goes
down with its manager. -/
theorem Effect.trace_of_outstanding (h : Effect b task { b with agenda := rest } t)
    (ha : b.agenda = task :: rest) (hs : b.Accounted) (known : key.serial < b.ledger.nextSerial)
    (entry : b.trace key = { outstanding := [p] }) :
    (∃ q, p.Continues q ∧ t.trace key = { outstanding := [q] }) ∨
      (∃ ending, task.ending? b p = some ending ∧ t.trace key = { owed := [.finish p ending] }) ∨
      (t.mount = b.mount ∧ t.managerAlive = false ∧ t.trace key = {}) := by
  have hp := hs.pop ha
  have other := owed?_ne_of_trace ha (by rw [entry])
  have popped := trace_pop_of_other ha other
  rw [entry] at popped
  -- What leaves the ledger in this step is the request as it was before.
  have ended : ∀ {q : Pending} {ending : Ending}, q ∈ b.ledger.entries → q.key = key →
      task.ending? b q = some ending → t.trace key = { owed := [.finish q ending] } →
      ∃ ending, task.ending? b p = some ending ∧ t.trace key = { owed := [.finish p ending] } := by
    intro q ending mem hk ends trace
    have hq : q = p := eq_of_trace (by rw [entry]) mem hk
    subst hq
    exact ⟨ending, ends, trace⟩
  cases h with
  | change _ _ h =>
    rcases h.trace_of_outstanding hp known popped with stay | ⟨q, ending, mem, hk, ends, trace⟩
    · exact .inl stay
    · exact .inr (.inl (ended mem hk ends trace))
  | @settle _ _ u v _ h pass k =>
    have known' := Nat.lt_of_lt_of_le known (h.nextSerial_le_pass pass)
    have hv := pass.accounted (h.accounted hp)
    have passed := pass.trace_of_other other
    rcases h.trace_of_outstanding hp known popped with
      ⟨q, same, hq⟩ | ⟨q, ending, mem, hk, ends, hq⟩
    · rw [hq] at passed
      rcases k.trace_of_outstanding hv known' passed with
        ⟨r, hqr, hr⟩ | ⟨r, ending, mem, hk, ends, hr⟩
      · exact .inl ⟨r, same.trans hqr, hr⟩
      · exact .inr (.inl (ended mem hk ends hr))
    · rw [hq] at passed
      have trace := k.trace_of_absent hv known' (by rw [passed])
      rw [passed] at trace
      exact .inr (.inl (ended mem hk ends trace))
  | keepManager | keepMount => exact .inl ⟨p, .refl p, popped⟩
  | dropManager gone =>
    have owed := congrArg Trace.owed popped
    have paid := congrArg Trace.paid popped
    exact .inr (.inr ⟨rfl, gone, Trace.ext rfl owed paid⟩)
  | dropMount =>
    refine .inl ⟨p, .refl p, ?_⟩
    rw [trace_push_quiet _ (by simp [Task.owed?]), popped]

/-- Doing the task that owes a request its callback passes the debt on or pays it. -/
theorem Effect.exists_pass (h : Effect b task { b with agenda := rest } t)
    (ha : b.agenda = task :: rest) (hs : b.Accounted) (known : key.serial < b.ledger.nextSerial)
    (owed : task.owed? = some key)
    (nothing : ({ b with agenda := rest } : State).trace key = {}) :
    ∃ u v, Pass task u v ∧ u.trace key = {} ∧ t.trace key = v.trace key := by
  have hp := hs.pop ha
  cases h with
  | change quiet =>
    rw [quiet] at owed
    cases owed
  | @settle _ _ u v _ h pass k =>
    have hu := (h.trace_of_absent hp known (by rw [nothing])).trans nothing
    have absent : (v.trace key).outstanding = [] := by
      rw [trace, pass.frame.1]
      exact congrArg Trace.outstanding hu
    have known' := Nat.lt_of_lt_of_le known (h.nextSerial_le_pass pass)
    exact ⟨u, v, pass, hu, k.trace_of_absent (pass.accounted (h.accounted hp)) known' absent⟩
  | keepManager | dropManager | keepMount | dropMount => cases owed

/-- A request that has ended stays so, and is given its callback once. -/
theorem Effect.trace_of_settled {ending : Ending} (h : Effect b task { b with agenda := rest } t)
    (ha : b.agenda = task :: rest) (hs : b.Accounted) (known : p.key.serial < b.ledger.nextSerial)
    (settled : (b.trace p.key).Settled p ending) : (t.trace p.key).Settled p ending := by
  have absent := settled.outstanding_eq_nil
  by_cases other : task.owed? = some p.key
  · -- The task is the one that owes the callback.
    obtain ⟨carries, nothing⟩ := carries_of_settled ha settled other
    obtain ⟨u, v, pass, hu, ht⟩ := h.exists_pass ha hs known other nothing
    rw [ht]
    exact pass.settled carries hu
  · rw [h.trace_of_absent ha hs known other absent]
    exact settled

/-- A request comes to be outstanding only as one that the task registers. -/
theorem Effect.trace_of_nothing (h : Effect b task { b with agenda := rest } t)
    (ha : b.agenda = task :: rest) (hs : b.Accounted) (nothing : b.trace key = {}) :
    t.trace key = {} ∨ (key.serial < t.ledger.nextSerial ∧ ∃ p owner, task.owner? = some owner ∧
      owner.Continues p.owner ∧ t.trace key = { outstanding := [p] }) := by
  have hp := hs.pop ha
  have other := owed?_ne_of_trace ha (by rw [nothing])
  have popped := trace_pop_of_other ha other
  rw [nothing] at popped
  have new : (b.trace key).outstanding = [] := by rw [nothing]
  cases h with
  | change _ _ h => exact h.trace_of_nothing hp popped new
  | @settle _ _ u v _ h pass k =>
    have hu : u.trace key = {} := by
      rcases h.trace_of_nothing hp popped new with hu | ⟨-, -, owner, ho, -⟩
      · exact hu
      · rw [pass.owner?_eq_none] at ho
        cases ho
    have hv : v.trace key = {} := (pass.trace_of_other other).trans hu
    exact k.trace_of_nothing (pass.accounted (h.accounted hp)) hv new
  | keepManager | keepMount => exact .inl popped
  | dropManager =>
    have owed := congrArg Trace.owed popped
    have paid := congrArg Trace.paid popped
    exact .inl (Trace.ext rfl owed paid)
  | dropMount =>
    rw [trace_push_quiet _ (by simp [Task.owed?])]
    exact .inl popped

end State

end FileRelay
