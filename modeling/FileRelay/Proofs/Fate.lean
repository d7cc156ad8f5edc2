import FileRelay.Proofs.Trace

/-!
# The fate of a request

Along a run a request is registered in one step and, unless it goes down with its manager,
taken out of the ledger in one later step, which decides how it ends.  From then on one
task owes it its callback, until this has been invoked.
-/

namespace FileRelay.State

variable {s₀ s t u v w : State} {task : Task} {rest : List Task} {key : RequestKey}
  {p q : Pending} {ending : Ending}

/-- The invocations of the callback of a request. -/
def callbacks (s : State) (key : RequestKey) : List Event :=
  s.history.filter (·.paid? = some key)

/-- A step of a run takes an outstanding request out of the ledger, and ends it in a given
way. -/
structure Ends (v w : State) (q : Pending) (ending : Ending) : Prop where
  next : Next v w
  step : v.step = some w
  task : ∃ task rest, v.agenda = task :: rest ∧ task.ending? v q = some ending
  before : v.ledger.findExact? q.key = some q
  after : w.ledger.findExact? q.key = none

/-- What a state shows of a request, which is never more than one thing. -/
inductive Fate (s : State) (key : RequestKey) : Prop
  | nothing (trace : s.trace key = {})
  | outstanding {p : Pending} (known : key.serial < s.ledger.nextSerial)
      (entry : s.trace key = { outstanding := [p] })
  | settled {p : Pending} {ending : Ending} (known : key.serial < s.ledger.nextSerial)
      (own : p.key = key) (settled : (s.trace key).Settled p ending)

/-! ## Reading a trace -/

theorem callbacks_eq (s : State) (key : RequestKey) : s.callbacks key = (s.trace key).paid := rfl

theorem findExact?_eq (s : State) (key : RequestKey) :
    s.ledger.findExact? key = (s.trace key).outstanding.head? := by
  rw [trace, Ledger.findExact?, List.head?_filter]

theorem findExact?_of_mem (hs : s.Accounted) (hp : p ∈ s.ledger.entries) :
    s.ledger.findExact? p.key = some p := by
  rw [findExact?_eq, hs.outstanding_of_mem hp]
  rfl

theorem mem_of_findExact? (h : s.ledger.findExact? key = some p) :
    p ∈ s.ledger.entries ∧ p.key = key :=
  ⟨List.mem_of_find?_eq_some h, by simpa using List.find?_some h⟩

/-! ## A step of a run -/

/-- What goes on in a run is a step, or leaves all traces as they are. -/
theorem Next.cases (h : Next s t) (hs : s.Sane) :
    (∃ task rest, s.agenda = task :: rest ∧ s.step = some t ∧
      Effect s task { s with agenda := rest } t) ∨
    (t.ledger = s.ledger ∧ t.managerAlive = s.managerAlive ∧ t.mount = s.mount ∧
      ∀ key, t.trace key = s.trace key) := by
  cases h with
  | work h fair =>
    obtain ⟨task, rest, ha, e⟩ := hs.upkeep.exists_effect fair h
    exact .inl ⟨task, rest, ha, h, e⟩
  | call call self =>
    have pushed : Change s (.issue call self) s (s.push [.issue call self]) := .again s call self
    exact .inr ⟨rfl, pushed.stays.1, rfl, fun key => trace_push_quiet s (by simp [Task.owed?])⟩
  | rewind n => exact .inr ⟨rfl, rfl, rfl, fun _ => rfl⟩

theorem Next.nextSerial_le (h : Next s t) (hs : s.Sane) :
    s.ledger.nextSerial ≤ t.ledger.nextSerial := by
  rcases h.cases hs with ⟨task, rest, ha, -, e⟩ | ⟨ledger, -⟩
  · exact e.nextSerial_le
  · exact Nat.le_of_eq (by rw [ledger])

theorem Next.settled (h : Next s t) (hs : s.Sane) (known : p.key.serial < s.ledger.nextSerial)
    (settled : (s.trace p.key).Settled p ending) : (t.trace p.key).Settled p ending := by
  rcases h.cases hs with ⟨task, rest, ha, -, e⟩ | ⟨-, -, -, trace⟩
  · exact e.trace_of_settled ha hs.accounted known settled
  · rw [trace]
    exact settled

/-- Nothing comes of a request that is there no longer. -/
theorem Next.nothing (h : Next s t) (hs : s.Sane) (known : key.serial < s.ledger.nextSerial)
    (nothing : s.trace key = {}) : t.trace key = {} := by
  rcases h.cases hs with ⟨task, rest, ha, -, e⟩ | ⟨-, -, -, trace⟩
  · have other := owed?_ne_of_trace ha (by rw [nothing])
    rw [e.trace_of_absent ha hs.accounted known other (by rw [nothing]), nothing]
  · rw [trace, nothing]

/-! ## A run -/

theorem Reaches.nextSerial_le (h : Reaches s u) (hs : s.Sane) :
    s.ledger.nextSerial ≤ u.ledger.nextSerial :=
  h.invariant (P := fun u => s.ledger.nextSerial ≤ u.ledger.nextSerial) (Nat.le_refl _)
    fun _ _ hu hn le => Nat.le_trans le (hn.nextSerial_le (hu.sane hs))

theorem Reaches.settled (h : Reaches s u) (hs : s.Sane)
    (known : p.key.serial < s.ledger.nextSerial) (settled : (s.trace p.key).Settled p ending) :
    (u.trace p.key).Settled p ending :=
  h.invariant (P := fun u => (u.trace p.key).Settled p ending) settled fun _ _ hu hn ih =>
    hn.settled (hu.sane hs) (Nat.lt_of_lt_of_le known (hu.nextSerial_le hs)) ih

theorem Start.fate (h : Start s) (key : RequestKey) : s.Fate key := by
  cases h <;> exact .nothing rfl

theorem Next.fate (h : Next s t) (hs : s.Sane) (hf : s.Fate key) : t.Fate key := by
  rcases h.cases hs with ⟨task, rest, ha, -, e⟩ | ⟨ledger, -, -, trace⟩
  · have le := e.nextSerial_le
    cases hf with
    | nothing nothing =>
      rcases e.trace_of_nothing ha hs.accounted nothing with
        nothing | ⟨known, p, -, -, -, entry⟩
      · exact .nothing nothing
      · exact .outstanding known entry
    | @outstanding p known entry =>
      have known' : key.serial < t.ledger.nextSerial := Nat.lt_of_lt_of_le known le
      have own := (mem_of_trace (congrArg Trace.outstanding entry)).2
      rcases e.trace_of_outstanding ha hs.accounted known entry with
        ⟨q, -, entry⟩ | ⟨ending, -, ended⟩ | ⟨-, -, nothing⟩
      · exact .outstanding known' entry
      · have settled : (t.trace key).Settled p ending := ended ▸ .owed .finish
        exact .settled known' own settled
      · exact .nothing nothing
    | settled known own settled =>
      subst own
      exact .settled (Nat.lt_of_lt_of_le known le) rfl
        (e.trace_of_settled ha hs.accounted known settled)
  · cases hf with
    | nothing nothing => exact .nothing ((trace key).trans nothing)
    | outstanding known entry => exact .outstanding (ledger ▸ known) ((trace key).trans entry)
    | settled known own settled => exact .settled (ledger ▸ known) own (trace key ▸ settled)

/-- Of a request there is never more than one thing. -/
theorem Reaches.fate (h : Reaches s u) (hs : s.Sane) (hf : s.Fate key) : u.Fate key :=
  h.invariant (P := fun u => u.Fate key) hf fun _ _ hu hn hf => hn.fate (hu.sane hs) hf

/-- An outstanding request is nothing else. -/
theorem Fate.of_mem (h : s.Fate p.key) (hp : p ∈ s.ledger.entries) :
    p.key.serial < s.ledger.nextSerial ∧ s.trace p.key = { outstanding := [p] } := by
  have mem : p ∈ (s.trace p.key).outstanding := mem_outstanding.2 ⟨hp, rfl⟩
  cases h with
  | nothing nothing =>
    rw [nothing] at mem
    cases mem
  | outstanding known entry =>
    have hq := eq_of_trace (congrArg Trace.outstanding entry) hp rfl
    subst hq
    exact ⟨known, entry⟩
  | settled _ _ settled =>
    rw [settled.outstanding_eq_nil] at mem
    cases mem

/-- A request that is outstanding no longer does not come back. -/
theorem Next.absent (h : Next s t) (hs : s.Sane) (hf : s.Fate key)
    (known : key.serial < s.ledger.nextSerial) (absent : s.ledger.findExact? key = none) :
    t.ledger.findExact? key = none := by
  rw [findExact?_eq] at absent ⊢
  cases hf with
  | nothing nothing =>
    rw [h.nothing hs known nothing]
    rfl
  | outstanding _ entry =>
    rw [entry] at absent
    cases absent
  | settled _ own settled =>
    subst own
    rw [(h.settled hs known settled).outstanding_eq_nil]
    rfl

theorem Reaches.absent (h : Reaches s u) (hs : s.Sane) (fate : s.Fate key)
    (known : key.serial < s.ledger.nextSerial) (absent : s.ledger.findExact? key = none) :
    u.ledger.findExact? key = none :=
  h.invariant (P := fun u => u.ledger.findExact? key = none) absent fun _ _ hu hn ih =>
    hn.absent (hu.sane hs) (hu.fate hs fate) (Nat.lt_of_lt_of_le known (hu.nextSerial_le hs)) ih

/-- As long as the mount is up its manager is there. -/
theorem Upkeep.alive_of_up (hs : s.Upkeep) (up : s.up) : s.managerAlive := by
  rcases hs.attended up with inUse | ⟨front, back, ha, hb⟩
  · exact managerAlive_of_inUse inUse
  · rw [managerAlive, ha]
    simp [hb]

/-- In one step an outstanding request stays so, or is ended by it, or goes down with its
manager, for whom nobody waits but a client. -/
theorem Next.turn (hn : Next u v) (sane : u.Sane) (known : q.key.serial < u.ledger.nextSerial)
    (entry : u.trace q.key = { outstanding := [q] }) :
    (∃ r, q.Continues r ∧ v.trace q.key = { outstanding := [r] }) ∨
      (∃ ending, u.Ends v q ending ∧ (v.trace q.key).Settled q ending) ∨
      (q.owner.isOperation = false ∧ v.managerAlive = false ∧ v.trace q.key = {}) := by
  have mem := mem_of_trace (congrArg Trace.outstanding entry)
  rcases hn.cases sane with ⟨task, rest, ha, step, e⟩ | ⟨-, -, -, trace⟩
  · rcases e.trace_of_outstanding ha sane.accounted known entry with
      stays | ⟨ending, ends, owed⟩ | ⟨mount, gone, nothing⟩
    · exact .inl stays
    · have out : v.ledger.findExact? q.key = none := by
        rw [findExact?_eq, owed]
        rfl
      have ended : u.Ends v q ending :=
        ⟨hn, step, ⟨task, rest, ha, ends⟩, findExact?_of_mem sane.accounted mem.1, out⟩
      exact .inr (.inl ⟨ending, ended, owed ▸ .owed .finish⟩)
    · cases client : q.owner.isOperation with
      | false => exact .inr (.inr ⟨rfl, gone, nothing⟩)
      | true =>
        -- An operation waits, so the mount is up, and keeps its manager.
        have up := sane.upkeep.facade q mem.1 client
        rw [State.up, ← mount] at up
        have alive := (hn.sane sane).upkeep.alive_of_up up
        rw [gone] at alive
        cases alive
  · exact .inl ⟨q, .refl q, (trace _).trans entry⟩

/-- A step that ends a request has a task owe it its callback. -/
theorem Ends.trace (h : v.Ends w q ending) (hs : v.Sane) (fate : v.Fate q.key) :
    w.trace q.key = { owed := [.finish q ending] } := by
  obtain ⟨known, entry⟩ := fate.of_mem (mem_of_findExact? h.before).1
  obtain ⟨task, rest, ha, ends⟩ := h.task
  rcases h.next.cases hs with ⟨task', rest', ha', -, e⟩ | ⟨-, -, -, same⟩
  · obtain ⟨rfl, rfl⟩ := List.cons.inj (ha.symm.trans ha')
    rcases e.trace_of_outstanding ha hs.accounted known entry with
      ⟨r, -, stays⟩ | ⟨other, ends', owed⟩ | ⟨-, gone, -⟩
    · have out := h.after
      rw [findExact?_eq, stays] at out
      cases out
    · rw [ends, Option.some.injEq] at ends'
      rw [owed, ends']
    · -- Only the end of a use lets go of the manager, and that ends no request as a task does.
      have alive := hs.upkeep.live (List.ne_nil_of_mem (mem_of_findExact? h.before).1)
      cases e with
      | change quiet stays h =>
        rw [h.stays.1, (stays_of_pop ha stays).1, alive] at gone
        cases gone
      | settle h pass k =>
        rw [k.stays.1, pass.stays.1, h.stays.1, (stays_of_pop ha pass.leaves_eq_false).1,
          alive] at gone
        cases gone
      | keepManager | dropManager | keepMount | dropMount => cases ends
  · have out := h.after
    rw [findExact?_eq, same, entry] at out
    cases out

/-- From then on its callback is owed, or was invoked. -/
theorem Ends.settled (h : v.Ends w q ending) (hs : v.Sane) (fate : v.Fate q.key)
    (later : Reaches w u) : (u.trace q.key).Settled q ending := by
  have known := (fate.of_mem (mem_of_findExact? h.before).1).1
  refine later.settled (h.next.sane hs)
    (Nat.lt_of_lt_of_le known (h.next.nextSerial_le hs)) ?_
  rw [h.trace hs fate]
  exact .owed .finish

/-! ## Where a request comes from -/

/-- A step of a run has a task register a request, for an owner that the task names. -/
structure Bears (v w : State) (task : Task) (p : Pending) : Prop where
  next : Next v w
  step : v.step = some w
  first : ∃ rest, v.agenda = task :: rest
  owner : ∃ owner, task.owner? = some owner ∧ owner.Continues p.owner
  before : v.trace p.key = {}
  after : w.trace p.key = { outstanding := [p] }

theorem Bears.fair (h : v.Bears w task p) : ¬ v.Trespasses := by
  obtain ⟨rest, ha⟩ := h.first
  obtain ⟨owner, names, -⟩ := h.owner
  refine not_trespasses ha fun ref self named => ?_
  subst named
  cases names

/-- What shows of a request comes from a step that registered it. -/
theorem Reaches.born (h : Reaches s u) (hs : s.Sane) (nothing : s.trace key = {})
    (some : u.trace key ≠ {}) :
    ∃ v w task p, Reaches s v ∧ v.Bears w task p ∧ Reaches w u ∧ p.key = key := by
  induction h with
  | refl => exact (some nothing).elim
  | @tail x y hx hn ih =>
    have reached : Reaches s x := hx
    by_cases none : x.trace key = {}
    · have sane := reached.sane hs
      rcases hn.cases sane with ⟨task, rest, ha, step, e⟩ | ⟨-, -, -, trace⟩
      · rcases e.trace_of_nothing ha sane.accounted none with
          gone | ⟨-, p, owner, ho, same, entry⟩
        · exact (some gone).elim
        · obtain ⟨-, own⟩ := mem_of_trace (congrArg Trace.outstanding entry)
          subst own
          exact ⟨x, y, task, p, reached,
            ⟨hn, step, ⟨rest, ha⟩, ⟨owner, ho, same⟩, none, entry⟩, .refl y, rfl⟩
      · exact (some ((trace key).trans none)).elim
    · obtain ⟨v, w, task, p, hv, bears, hw, own⟩ := ih none
      exact ⟨v, w, task, p, hv, bears, hw.tail hn, own⟩

end FileRelay.State
