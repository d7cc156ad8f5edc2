import FileRelay.Proofs.Facade
import FileRelay.Proofs.Verdict

/-!
# What the caller of an operation is promised

* An operation that is refused leaves all as it was but for its answer, and no callback invoked
  later on is its own.
* One that is accepted is handed over, and its callback is invoked once at most, and exactly once
  by the time that nothing is under way and the request has ended, the mount is down or nobody
  holds it, whatever the provider's end, the observers and the callbacks do meanwhile
  (`operation_done_once`).
* The callback is given what the end of the request gives.  What the provider says last is how the
  request ends, be it a reply, an error or that it refuses the request (`FinalWord.ends`); and an
  error reaches the caller as it is (`Ends.told_error`).
-/

namespace FileRelay.State

variable {s t u x y : State} {rest : List Task} {self : RequestId} {key : RequestKey}
  {p q : Pending} {ending : Ending} {failure : Failure} {delivery : Delivery}
  {operation : Operation} {expects : Expectation} {tag : Option String} {followUp : List Call}

/-! ## At most once, and at last -/

/-- The callback of an operation that is waited for is invoked at most once, and exactly
once by the time that nothing is under way and the request has ended, the mount is down or
nobody holds it. -/
theorem operation_done_once {expects : Expectation} (ht : t.Sane)
    (known : p.key.serial < t.ledger.nextSerial) (entry : t.trace p.key = { outstanding := [p] })
    (owner : p.owner = .operation expects tag followUp) (h : Reaches t u) :
    (u.callbacks p.key).length ≤ 1 ∧
    (u.agenda = [] → u.ledger.findExact? p.key = none ∨ u.up = false ∨ u.heldMount? = none →
      ∃ event, u.callbacks p.key = [event]) ∧
    ∀ event ∈ u.callbacks p.key, ∃ v w q ending parts result, Reaches t v ∧ v.Ends w q ending ∧
      Reaches w u ∧ p.Continues q ∧ event = .done p.key tag result ∧
      (expects.collectAll parts).Gives ending result := by
  rw [callbacks_eq]
  cases h.life ht known entry with
  | @outstanding q same entry =>
    rw [entry]
    refine ⟨Nat.zero_le _, ?_, ?_⟩
    · intro idle ends
      have mem := mem_of_trace (congrArg Trace.outstanding entry)
      have waits : q.owner.isOperation := by
        rw [same.owner.isOperation_eq, owner]
        rfl
      have held := (h.sane ht).upkeep.held_of_outstanding mem.1 waits idle
      rcases ends with none | down | dropped
      · rw [findExact?_eq, entry] at none
        cases none
      · rw [held.1] at down
        cases down
      · rw [dropped] at held
        cases held.2
    · intro event he
      cases he
  | @settled v w q ending before ends after same left settled =>
    rcases settled.owed_or_paid with ⟨task, -, owed, paid⟩ | ⟨event, reports, owed, paid⟩
    · rw [paid]
      refine ⟨Nat.zero_le _, ?_, ?_⟩
      · intro idle _
        rw [trace, idle] at owed
        cases owed
      · intro event he
        cases he
    · rw [paid]
      refine ⟨Nat.le_refl _, fun _ _ => ⟨event, rfl⟩, ?_⟩
      intro other ho
      rw [List.mem_singleton.1 ho]
      have continues := same.owner
      rw [owner] at continues
      obtain ⟨parts, hq⟩ := continues.of_operation
      cases reports with
      | client hc =>
        rw [hq] at hc
        cases hc
      | operation hc gives =>
        rw [hq] at hc
        cases hc
        exact ⟨v, w, q, ending, parts, _, before, ends, after, same, by rw [same.key], gives⟩
  | lost client =>
    rw [owner] at client
    cases client

theorem trace_reply (s : State) (call : Call) (answer : Answer) :
    (s.reply call answer).trace key = s.trace key :=
  trace_emit_of_other s (by simp [Event.paid?])

/-! ## The final word -/

/-- The next step brings the final word on a request: a success or an error, from whoever delivers
it, or that the provider's end refuses the request, which it was given. -/
inductive FinalWord (u : State) (key : RequestKey) : Ending → Prop
  /-- Somebody delivers it by a call. -/
  | delivered {ref : RequestRef} {self : RequestId} {delivery : Delivery} {rest : List Task}
      {ending : Ending} (ahead : u.agenda = .issue (.deliver ref delivery) self :: rest)
      (held : u.managerHeld) (id : ref.resolve self = key.id)
      (final : delivery.ending? = some ending) : FinalWord u key ending
  /-- The driver routes it. -/
  | routed {link : ChannelLink} {message : Incoming} {waiting : List Incoming} {rest : List Task}
      {ending : Ending} (ahead : u.agenda = .poll :: rest) (channel : u.channel? = some link)
      (inbox : link.inbox = message :: waiting) (id : message.requestId = key.id)
      (final : message.delivery.ending? = some ending) : FinalWord u key ending
  /-- The provider's end refuses the request. -/
  | refused {failure : Failure} {rest : List Task} (ahead : u.agenda = .verdict key :: rest)
      (refuses : u.deliverError? = some failure) : FinalWord u key (.rejected failure)

theorem ledger_deliver_of_final {id : RequestId} (found : s.ledger.find? id = some q)
    (final : delivery.ending? = some ending) :
    (s.deliver id delivery).ledger = s.ledger.erase q.id := by
  unfold State.deliver
  rw [found]
  cases delivery with
  | part => cases final
  | success | error => rfl

/-- The final word ends the request that it is about, as it says, and no other. -/
theorem FinalWord.ends (word : u.FinalWord q.key ending) (hs : u.Sane)
    (outstanding : u.ledger.findExact? q.key = some q) :
    ∃ x, u.step = some x ∧ u.EndsOnly x q ending := by
  have found := hs.accounted.find?_of_findExact? outstanding
  cases word with
  | @delivered ref self delivery rest _ ahead held id final =>
    have fair := not_trespasses ahead (by simp)
    have step := step_of_agenda ahead
    refine ⟨_, step, .of_erase hs (.work step fair) step ahead ?_ outstanding ?_⟩
    · rw [Task.ending?, if_pos (show ref.resolve self = q.id from id)]
      exact final
    · have held' : ({ u with agenda := rest } : State).managerHeld := held
      rw [State.perform, State.issue, State.withManager, if_pos held', id]
      exact ledger_deliver_of_final found final
  | @routed link message waiting rest _ ahead channel inbox id final =>
    have fair := not_trespasses ahead (by simp)
    have channel' : ({ u with agenda := rest } : State).channel? = some link := channel
    -- A request is outstanding, so there is a manager to route it to.
    have alive : ({ u with agenda := rest } : State).managerAlive := by
      rw [(stays_of_pop ahead rfl).1]
      exact hs.upkeep.live (List.ne_nil_of_mem (mem_of_findExact? outstanding).1)
    have step := step_of_agenda ahead
    refine ⟨_, step, .of_erase hs (.work step fair) step ahead ?_ outstanding ?_⟩
    · obtain ⟨⟩ := link
      cases inbox
      rw [Task.ending?, channel]
      dsimp only
      rw [if_pos (show message.requestId = q.id from id)]
      exact final
    · rw [State.perform, State.poll, channel']
      dsimp only
      rw [inbox]
      dsimp only
      have taken : Change u .poll { u with agenda := rest } (State.modifyChannel
        { u with agenda := rest } ({ · with inbox := waiting })) := .modifyChannel _ _
      rw [if_pos (taken.stays.1.trans alive), id]
      exact ledger_deliver_of_final found final
  | refused ahead refuses =>
    have step := step_of_agenda ahead
    exact ⟨_, step, verdict_of_refused hs ahead step found refuses⟩

/-- Once an operation has failed, its caller is given the error, as it is, and nothing else. -/
theorem Ends.told_error (ends : u.Ends x q ending) (hs : u.Sane) (fate : u.Fate q.key)
    (owner : q.owner = .operation expects tag followUp) (fails : ending.result = .error failure)
    (later : Reaches x y) :
    y.callbacks q.key = [] ∧ y.agenda ≠ [] ∨
      y.callbacks q.key = [.done q.key tag (.error failure)] := by
  rw [callbacks_eq]
  rcases (ends.settled hs fate later).owed_or_paid with
    ⟨task, -, owed, paid⟩ | ⟨event, reports, -, paid⟩
  · refine .inl ⟨paid, fun idle => ?_⟩
    rw [State.trace, idle] at owed
    cases owed
  · refine .inr ?_
    rw [paid]
    cases reports with
    | client owner' =>
      rw [owner] at owner'
      cases owner'
    | operation owner' gives =>
      rw [owner] at owner'
      cases owner'
      rw [Expectation.eq_error_of_gives gives fails]

/-! ## The contract -/

/-- What the caller of an operation that a step to `t` accepted under a key is promised of a later
state `u`. -/
structure Served (t : State) (operation : Operation) (tag : Option String) (key : RequestKey)
    (u : State) : Prop where
  /-- The callback has been invoked once at most. -/
  most : (u.callbacks key).length ≤ 1
  /-- It has been invoked once if nothing is under way and the request has ended, the mount is down
  or nobody holds it. -/
  once : u.agenda = [] →
    u.ledger.findExact? key = none ∨ u.up = false ∨ u.heldMount? = none →
    ∃ event, u.callbacks key = [event]
  /-- It was given what the end of the request gives, with all parts that were passed on. -/
  given : ∀ event ∈ u.callbacks key, ∃ v w q ending parts result, Reaches t v ∧
    v.Ends w q ending ∧ Reaches w u ∧ q.key = key ∧ event = .done key tag result ∧
    (operation.expectation.collectAll parts).Gives ending result
  /-- As long as the request is outstanding, the final word on it ends it just so: a success as
  completed, an error or a refusal by the provider's end as rejected with that very failure. -/
  ends : ∀ q ending, u.ledger.findExact? key = some q → u.FinalWord key ending →
    ∃ x, u.step = some x ∧ u.Ends x q ending
  /-- And once a step has ended it with an error, this is what the callback is given, as soon as
  nothing is under way at the latest. -/
  error : ∀ x q ending failure, u.Ends x q ending → q.key = key → ending.result = .error failure →
    ∀ y, Reaches x y → y.callbacks key = [] ∧ y.agenda ≠ [] ∨
      y.callbacks key = [.done key tag (.error failure)]

theorem served (ht : t.Sane) (fate : t.Fate p.key) (known : p.key.serial < t.ledger.nextSerial)
    (entry : t.trace p.key = { outstanding := [p] })
    (owner : p.owner = .operation operation.expectation tag followUp) (h : Reaches t u) :
    Served t operation tag p.key u := by
  obtain ⟨most, once, given⟩ := operation_done_once ht known entry owner h
  have sane := h.sane ht
  refine ⟨most, once, ?_, ?_, ?_⟩
  · intro event he
    obtain ⟨v, w, q, ending, parts, result, hv, ends, hw, same, hev, gives⟩ := given event he
    exact ⟨v, w, q, ending, parts, result, hv, ends, hw, same.key, hev, gives⟩
  · intro q ending outstanding word
    obtain ⟨-, own⟩ := mem_of_findExact? outstanding
    rw [← own] at outstanding word
    obtain ⟨x, step, only⟩ := word.ends sane outstanding
    exact ⟨x, step, only.ends⟩
  · intro x q ending failure ends own fails y later
    have continues := (h.continues ht known entry (own ▸ ends.before)).owner
    rw [owner] at continues
    obtain ⟨parts, waits⟩ := continues.of_operation
    rw [← own] at fate ⊢
    exact ends.told_error sane (h.fate ht fate) waits fails later

/-- The contract of the operations of a mount.  A call that is refused leaves all as it
was but for its answer, and no callback invoked later on is its own.  A call that finds
every id in use is made once more.  Any other is accepted and handed over: the callback is
invoked at most once in every run from there on, with what the end of the request gives, and
exactly once by the time that nothing is under way and the request has ended, the mount is down
or nobody holds it.  A reply with an error ends the request with that error, as does a refusal by
the provider's end, and this is then what the callback is given. -/
theorem operation_contract {settings : MountSettings} {link : Link} {timersRun : Bool}
    {firstId : UInt32} {horizon : Nat}
    (reached : Reaches (ofMount settings link timersRun firstId horizon) s)
    (called : s.agenda = .issue (.operate operation tag followUp) self :: rest) :
    ∃ t, s.step = some t ∧
      ((∃ answer, s.Refuses operation answer ∧
          t = ({ s with agenda := rest } : State).reply (.operate operation tag followUp) answer ∧
          ∀ u key tag' result, Reaches t u → .done key tag' result ∈ u.history →
            s.trace key ≠ {} ∨ ∃ v w operation' followUp', Reaches t v ∧
              v.Starts w operation' tag' followUp' key ∧ Reaches w u) ∨
        (s.pool.next? = none ∧ t = s) ∨
        ∃ key content, s.Starts t operation tag followUp key ∧ s.Admits operation content ∧
          (∃ tells, t.agenda = tells ++ .handOver key content :: .verdict key :: .leaveMount ::
            .grant (.operate operation tag followUp) key :: rest) ∧
          ∀ u, Reaches t u → Served t operation tag key u) := by
  have start : Start (ofMount settings link timersRun firstId horizon) :=
    .mount settings link timersRun firstId horizon
  have sane := reached.sane start.sane
  obtain ⟨t, ht⟩ : ∃ t, ({ s with agenda := rest } : State).operate
      (.operate operation tag followUp) self operation tag followUp = t := ⟨_, rfl⟩
  have step : s.step = some t := ht ▸ step_of_agenda called
  have fair := not_trespasses called (by simp)
  have sane' := (Next.work step fair).sane sane
  refine ⟨t, step, ?_⟩
  rcases operate_cases { s with agenda := rest } (.operate operation tag followUp) self operation
    tag followUp with ⟨answer, refuses, told⟩ | ⟨full, again⟩ |
    ⟨p, pool, content, admits, serial, owner, drawn, ledger, tells, agenda⟩
  · refine .inl ⟨answer, ?_, ht.symm.trans told, ?_⟩
    · cases refuses with
      | noMount h => exact .noMount h
      | refused held h => exact .refused held h
    · intro u key tag' result hu invoked
      rcases starts_of_done sane' hu invoked with shows | starts
      · have quiet : ({ s with agenda := rest } : State).trace key = s.trace key :=
          trace_pop_of_other called (by simp [Task.owed?])
        rw [← ht, told, trace_reply, quiet] at shows
        exact .inl shows
      · exact .inr starts
  · refine .inr (.inl ⟨full, ht.symm.trans (again.trans ?_)⟩)
    obtain ⟨⟩ := s
    cases called
    rfl
  · rw [ht] at ledger agenda
    have entries := (sane.accounted.pop called).entries_insert drawn
    rw [← ledger] at entries
    have mem : p ∈ t.ledger.entries := by
      rw [entries]
      exact List.mem_append_right _ (List.mem_singleton_self p)
    have fate : t.Fate p.key := (reached.tail (.work step fair)).fate start.sane (start.fate _)
    obtain ⟨known, entry⟩ := fate.of_mem mem
    have absent : s.ledger.findExact? p.key = none := by
      cases hf : s.ledger.findExact? p.key with
      | none => rfl
      | some q =>
        obtain ⟨hq, hk⟩ := mem_of_findExact? hf
        have old := ((reached.fate start.sane (start.fate _)).of_mem hq).1
        rw [hk] at old
        exact (Nat.lt_irrefl _ (serial ▸ old)).elim
    have starts : s.Starts t operation tag followUp p.key :=
      ⟨step, ⟨self, rest, called⟩, absent, p, findExact?_of_mem sane'.accounted mem,
        owner ▸ .refl _⟩
    exact .inr (.inr ⟨p.key, content, starts, admits, ⟨tells, agenda⟩,
      fun u hu => served sane' fate known entry owner hu⟩)

/-- A mount is asked for the metadata of an entry, and the provider's end refuses the request: the
caller is told so. -/
theorem operation_contract_of_getMetadata :
    ∃ (s t u x y : State) (key : RequestKey) (q : Pending),
      s = (ofMount { info := { providerId := "p", fileSystemId := "f", displayName := "d" } }
        (.direct { deliverError := some .connectionAborted }) true).push
          [.issue (.operate (.getMetadata "/a") none []) ⟨0⟩] ∧
      s.Starts t (.getMetadata "/a") none [] key ∧ Reaches t u ∧
      u.agenda.head? = some (.verdict key) ∧ u.Ends x q (.rejected .connectionAborted) ∧
      Reaches x y ∧ y.agenda = [] ∧
      y.callbacks key = [.done key none (.error .connectionAborted)] := by
  have called := Next.call (s := ofMount
    { info := { providerId := "p", fileSystemId := "f", displayName := "d" } }
    (.direct { deliverError := some .connectionAborted }) true)
    (.operate (.getMetadata "/a") none []) ⟨0⟩
  obtain ⟨t, step, ⟨answer, refuses, -⟩ | ⟨full, -⟩ | ⟨key, content, starts, -, -, served⟩⟩ :=
    operation_contract (.head called (.refl _)) rfl
  · cases refuses with
    | noMount h => cases h
    | refused held h =>
      cases held
      cases h
  · cases full
  · obtain ⟨_, after, -⟩ := starts.after
    obtain ⟨mem, own⟩ := mem_of_findExact? after
    obtain ⟨t₁, u, x, y, rest, q, first, keys, hu, ahead, refuses, outstanding, onward', hy, idle⟩ :
        ∃ (t₁ u x y : State) (rest : List Task) (q : Pending), State.step
          ((ofMount { info := { providerId := "p", fileSystemId := "f", displayName := "d" } }
            (.direct { deliverError := some .connectionAborted }) true).push
              [.issue (.operate (.getMetadata "/a") none []) ⟨0⟩]) = some t₁ ∧
        t₁.ledger.entries.map (·.key) = [⟨⟨1⟩, 1⟩] ∧ t₁.follow? [.work, .work] = some u ∧
        u.agenda = .verdict ⟨⟨1⟩, 1⟩ :: rest ∧ u.deliverError? = some .connectionAborted ∧
        u.ledger.findExact? ⟨⟨1⟩, 1⟩ = some q ∧ u.step = some x ∧
        x.follow? (List.replicate 7 .work) = some y ∧ y.agenda = [] :=
      ⟨_, _, _, _, _, _, rfl, rfl, rfl, rfl, rfl, rfl, rfl, rfl, rfl⟩
    cases step.symm.trans first
    have only := List.mem_map_of_mem (f := Pending.key) mem
    rw [own, keys, List.mem_singleton] at only
    subst only
    have later := reaches_of_follow? hu
    obtain ⟨x₁, onward, ends⟩ :=
      (served u later).ends q _ outstanding (.refused ahead refuses)
    cases onward.symm.trans onward'
    have reached := reaches_of_follow? hy
    refine ⟨_, t, u, x, y, _, q, rfl, starts, later, by rw [ahead]; rfl, ends, reached, idle, ?_⟩
    rcases (served u later).error x q _ _ ends (mem_of_findExact? outstanding).2 rfl y reached with
      ⟨-, busy⟩ | told
    · exact absurd idle busy
    · exact told

end FileRelay.State
