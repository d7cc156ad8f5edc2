import FileRelay.Proofs.Course

/-!
# Operations of the mount

An operation is refused, which leaves no trace but its answer, or waits for a free id, or is
accepted: its request enters the ledger, and is to be handed over.  Whatever the callback of an
operation is invoked with later on belongs to a request that an operation started.
-/

namespace FileRelay

variable {operation : Operation} {tag : Option String} {followUp : List Call}

/-- The one who waits for the result of an operation may have been given parts of it. -/
theorem Owner.Continues.of_operation {expects : Expectation} {o : Owner}
    (h : (Owner.operation expects tag followUp).Continues o) :
    ∃ parts, o = .operation (expects.collectAll parts) tag followUp := by
  cases h with
  | operation _ parts => exact ⟨parts, rfl⟩

namespace State

variable {s t u v w : State} {rest : List Task} {self : RequestId} {key : RequestKey}
  {p q : Pending} {task : Task} {ending : Ending}

/-- What the caller of an operation that is not accepted is told: that there is nothing to
call, or why the mount refuses. -/
inductive Refuses (s : State) (operation : Operation) : Answer → Prop
  | noMount (h : s.heldMount? = none) : Refuses s operation (.word .noMount)
  | refused {m : Mount} {failure : Failure} (held : s.heldMount? = some m)
      (h : operation.request m.settings.info m.mounted m.files = .error failure) :
      Refuses s operation (.refused failure)

/-- What the provider is to be asked for an operation that is not refused. -/
def Admits (s : State) (operation : Operation) (content : Request) : Prop :=
  ∃ m, s.heldMount? = some m ∧
    operation.request m.settings.info m.mounted m.files = .ok content

/-- A step accepts an operation: its request enters the ledger. -/
structure Starts (v w : State) (operation : Operation) (tag : Option String)
    (followUp : List Call) (key : RequestKey) : Prop where
  step : v.step = some w
  call : ∃ self rest, v.agenda = .issue (.operate operation tag followUp) self :: rest
  before : v.ledger.findExact? key = none
  after : ∃ p, w.ledger.findExact? key = some p ∧
    (Owner.operation operation.expectation tag followUp).Continues p.owner

/-! ## The call -/

/-- What comes of calling an operation. -/
theorem operate_cases (s : State) (call : Call) (self : RequestId) (operation : Operation)
    (tag : Option String) (followUp : List Call) :
    (∃ answer, s.Refuses operation answer ∧
      s.operate call self operation tag followUp = s.reply call answer) ∨
    (s.pool.next? = none ∧
      s.operate call self operation tag followUp = s.push [.issue call self]) ∨
    ∃ p pool content, s.Admits operation content ∧ p.serial = s.ledger.nextSerial ∧
      p.owner = .operation operation.expectation tag followUp ∧
      s.pool.next? = some (p.id.val, pool) ∧
      (s.operate call self operation tag followUp).ledger = s.ledger.insert p ∧
      ∃ tells, (s.operate call self operation tag followUp).agenda =
        tells ++ .handOver p.key content :: .verdict p.key :: .leaveMount :: .grant call p.key ::
          s.agenda := by
  unfold State.operate
  cases hm : s.heldMount? with
  | none => exact .inl ⟨_, .noMount hm, rfl⟩
  | some m =>
    dsimp only
    cases hr : operation.request m.settings.info m.mounted m.files with
    | error failure => exact .inl ⟨_, .refused hm hr, rfl⟩
    | ok content =>
      dsimp only
      split
      · rename_i hreg
        exact .inr (.inl ⟨next?_of_register? hreg, rfl⟩)
      · rename_i u key hreg
        obtain ⟨p, rfl, serial, owner, drawn, ledger, -, agenda, -⟩ := register?_spec hreg
        -- A file to be closed is marked in between, which changes neither ledger nor agenda.
        have pushed : ∀ x : State, x.ledger = u.ledger → x.agenda = u.agenda →
            (x.push (x.tells p.key (.created content.kind) ++ [.handOver p.key content,
              .verdict p.key, .leaveMount, .grant call p.key])).ledger = s.ledger.insert p ∧
            ∃ tells, (x.push (x.tells p.key (.created content.kind) ++ [.handOver p.key content,
              .verdict p.key, .leaveMount, .grant call p.key])).agenda =
                tells ++ .handOver p.key content :: .verdict p.key :: .leaveMount ::
                  .grant call p.key :: s.agenda := by
          intro x hx ha
          refine ⟨hx.trans ledger, x.tells p.key (.created content.kind), ?_⟩
          rw [push, ha, agenda]
          simp
        refine .inr (.inr ⟨p, u.pool, content, ⟨m, hm, hr⟩, serial, owner, drawn, ?_⟩)
        cases operation with
        | closeFile id =>
          exact pushed (u.modifyMount fun m => { m with files := m.files.mark id true }) rfl rfl
        | _ => exact pushed u rfl rfl

/-! ## What a callback belongs to -/

/-- A request that an operation waits for comes from the step that accepted the operation. -/
theorem Bears.starts (h : v.Bears w task p) (ho : p.owner.isOperation) (hw : w.Sane) :
    ∃ operation tag followUp parts, v.Starts w operation tag followUp p.key ∧
      p.owner = .operation (operation.expectation.collectAll parts) tag followUp := by
  obtain ⟨owner, named, same⟩ := h.owner
  obtain ⟨rest, first⟩ := h.first
  rw [same.isOperation_eq] at ho
  have mem := (mem_of_trace (congrArg Trace.outstanding h.after)).1
  cases task with
  | issue call self =>
    cases call with
    | operate operation tag followUp =>
      cases named
      obtain ⟨parts, hp⟩ := same.of_operation
      refine ⟨operation, tag, followUp, parts, ⟨h.step, ⟨self, rest, first⟩, ?_, p, ?_, same⟩, hp⟩
      · rw [findExact?_eq, h.before]
        rfl
      · exact findExact?_of_mem hw.accounted mem
    | create =>
      cases named
      cases ho
    | _ => cases named
  | _ => cases named

/-- What is invoked with the result of an operation belongs to a request of an operation. -/
theorem owner_of_done {result : Except Failure Value}
    (h : Event.Reports q ending (.done key tag result)) : ∃ expects followUp,
      q.owner = .operation expects tag followUp ∧ expects.Gives ending result := by
  generalize he : Event.done key tag result = event at h
  cases h with
  | client owner =>
    unfold Ending.callback at he
    split at he <;> cases he
  | @operation expects tag followUp result owner gives =>
    cases he
    exact ⟨expects, followUp, owner, gives⟩

/-- Every callback of an operation that is invoked later on belongs to a request that is
there already, or to one whose operation is accepted on the way. -/
theorem starts_of_done {result : Except Failure Value} (ht : t.Sane)
    (h : Reaches t u) (invoked : .done key tag result ∈ u.history) :
    t.trace key ≠ {} ∨
      ∃ v w operation followUp, Reaches t v ∧ v.Starts w operation tag followUp key ∧
        Reaches w u := by
  have paid : .done key tag result ∈ (u.trace key).paid := by
    rw [trace, List.mem_filter]
    exact ⟨invoked, by simp [Event.paid?]⟩
  by_cases nothing : t.trace key = {}
  · have shows : u.trace key ≠ {} := by
      intro none
      rw [none] at paid
      cases paid
    obtain ⟨v, w, task, p, hv, bears, hw, rfl⟩ := h.born ht nothing shows
    have toW : Reaches t w := hv.tail bears.next
    have sane := toW.sane ht
    obtain ⟨mem, -⟩ := mem_of_trace (congrArg Trace.outstanding bears.after)
    obtain ⟨known, entry⟩ := (toW.fate ht (.nothing nothing)).of_mem mem
    -- The one invocation reports how the request ended, for the one who waits for it.
    cases hw.life sane known entry with
    | outstanding _ entry =>
      rw [entry] at paid
      cases paid
    | lost _ _ none =>
      rw [none] at paid
      cases paid
    | @settled _ _ q ending _ _ _ same _ settled =>
      rcases settled.owed_or_paid with ⟨_, -, -, none⟩ | ⟨event, reports, -, one⟩
      · rw [none] at paid
        cases paid
      · rw [one, List.mem_singleton] at paid
        subst paid
        obtain ⟨expects, followUp, owner, -⟩ := owner_of_done reports
        have waits : p.owner.isOperation := by
          rw [← same.owner.isOperation_eq, owner]
          rfl
        obtain ⟨operation, tag', followUp', parts, starts, ho⟩ := bears.starts waits sane
        have continues := same.owner
        rw [ho, owner] at continues
        obtain ⟨_, he⟩ := continues.of_operation
        cases he
        exact .inr ⟨v, w, operation, followUp, hv, starts, hw⟩
  · exact .inl nothing

end State

end FileRelay
