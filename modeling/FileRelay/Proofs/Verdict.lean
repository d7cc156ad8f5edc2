import FileRelay.Proofs.Laps
import FileRelay.Proofs.Joined
import FileRelay.Proofs.Slots

/-!
# What the provider's end said

When the provider's end has been given a request, what it said is acted upon by id alone: whatever
is outstanding under the id by then is marked as delivered, or fails.  In between the provider's end
may have done anything, such as completing the request and starting others.

So exactly one request is concerned, if any is.  It is the one that was handed over as long as this
is outstanding.  Otherwise it is one that was registered since and given the same id, which takes a
counter that was set, or went all the way round.  All other requests are left as they are.
-/

namespace FileRelay.State

variable {s₀ s t v w : State} {rest : List Task} {key : RequestKey} {q r : Pending}
  {operation : Operation} {tag : Option String} {followUp : List Call} {failure : Failure}

/-! ## The step -/

theorem verdict_of_none (ahead : s.agenda = .verdict key :: rest) (step : s.step = some t)
    (none : s.ledger.find? key.id = none) : t.ledger = s.ledger ∧ t.agenda = rest := by
  have none' : ({ s with agenda := rest } : State).ledger.find? key.id = .none := none
  rw [step_of_agenda ahead, Option.some.injEq, State.perform, State.verdict] at step
  subst step
  split
  · rw [markDelivered, none']
    exact ⟨rfl, rfl⟩
  · simp [State.deliver, note, emit, none]

/-- The request is accepted: the one of its id is marked as delivered. -/
theorem verdict_of_taken (ahead : s.agenda = .verdict key :: rest) (step : s.step = some t)
    (found : s.ledger.find? key.id = some q) (accepts : s.deliverError? = none) :
    t.ledger = s.ledger.modify q.key ({ · with stage := .delivered }) := by
  have found' : ({ s with agenda := rest } : State).ledger.find? key.id = some q := found
  have accepts' : ({ s with agenda := rest } : State).deliverError? = none := accepts
  rw [step_of_agenda ahead, Option.some.injEq, State.perform, State.verdict, accepts'] at step
  subst step
  dsimp only
  rw [markDelivered, found']
  rfl

/-- The request is refused: the one of its id fails, and no other. -/
theorem verdict_of_refused (hs : s.Sane) (ahead : s.agenda = .verdict key :: rest)
    (step : s.step = some t) (found : s.ledger.find? key.id = some q)
    (refuses : s.deliverError? = some failure) : s.EndsOnly t q (.rejected failure) := by
  have mem := List.mem_of_find?_eq_some found
  have id : q.id = key.id := by simpa using List.find?_some found
  have refuses' : ({ s with agenda := rest } : State).deliverError? = some failure := refuses
  have fair := not_trespasses ahead (by simp)
  refine .of_erase hs (.work step fair) step ahead ?_ (findExact?_of_mem hs.accounted mem) ?_
  · rw [Task.ending?, if_pos id.symm, refuses]
    rfl
  · rw [step_of_agenda ahead, Option.some.injEq, State.perform, State.verdict, refuses'] at step
    subst step
    simp [State.deliver, note, emit, found, finishNow, pull, push]

/-- Failing the request of an id neither stops a timer nor invokes a callback: either is to be done
later on. -/
theorem deliver_error_keeps (s : State) (id : RequestId) (failure : Failure) :
    (s.deliver id (.error failure)).timers = s.timers ∧
      ∀ other, (s.deliver id (.error failure)).callbacks other = s.callbacks other := by
  unfold State.deliver
  cases s.ledger.find? id <;> exact ⟨rfl, fun _ => rfl⟩

theorem verdict_keeps (ahead : s.agenda = .verdict key :: rest) (step : s.step = some t) :
    t.timers = s.timers ∧ ∀ other, t.callbacks other = s.callbacks other := by
  rw [step_of_agenda ahead, Option.some.injEq, State.perform, State.verdict] at step
  subst step
  split
  · rw [markDelivered]
    split <;> exact ⟨rfl, fun _ => rfl⟩
  · exact deliver_error_keeps _ _ _

/-- What acting upon an answer of the provider's end does: the request outstanding under an id, and
no other, is marked as delivered or fails, as the answer says. -/
structure ActsOn (s t : State) (id : RequestId) : Prop where
  /-- No timer is armed or stopped. -/
  timers : t.timers = s.timers
  /-- No callback is invoked. -/
  callbacks : ∀ key, t.callbacks key = s.callbacks key
  /-- The requests of other ids are kept whole, and none comes to be outstanding. -/
  others : ∀ r : Pending, r.id ≠ id → (r ∈ t.ledger.entries ↔ r ∈ s.ledger.entries)
  nobody : s.ledger.find? id = none → t.ledger = s.ledger
  taken : ∀ q, s.ledger.find? id = some q → s.deliverError? = none →
    t.ledger = s.ledger.modify q.key ({ · with stage := .delivered })
  refused : ∀ q failure, s.ledger.find? id = some q → s.deliverError? = some failure →
    s.EndsOnly t q (.rejected failure)

/-- Changing a request changes none of another id. -/
theorem mem_modify_of_ne {ledger : Ledger} {f : Pending → Pending} (other : r.id ≠ q.id)
    (keeps : (f q).key = q.key) (alone : ∀ p ∈ ledger.entries, p.key = q.key → p = q) :
    r ∈ (ledger.modify q.key f).entries ↔ r ∈ ledger.entries := by
  rw [Ledger.modify, List.mem_map]
  constructor
  · rintro ⟨p, mem, rfl⟩
    by_cases own : p.key = q.key
    · rw [if_pos own, alone p mem own] at other
      exact (other (congrArg RequestKey.id keeps)).elim
    · rw [if_neg own]
      exact mem
  · intro mem
    exact ⟨r, mem, if_neg fun own => other (congrArg RequestKey.id own)⟩

theorem actsOn_of_verdict (hs : s.Sane) (ahead : s.agenda = .verdict key :: rest)
    (step : s.step = some t) : s.ActsOn t key.id := by
  obtain ⟨timers, callbacks⟩ := verdict_keeps ahead step
  refine ⟨timers, callbacks, ?_, fun none => (verdict_of_none ahead step none).1,
    fun q found accepts => verdict_of_taken ahead step found accepts,
    fun q failure found refuses => verdict_of_refused hs ahead step found refuses⟩
  intro r other
  cases found : s.ledger.find? key.id with
  | none => rw [(verdict_of_none ahead step found).1]
  | some q =>
    have mem := List.mem_of_find?_eq_some found
    have id : q.id = key.id := by simpa using List.find?_some found
    rw [← id] at other
    cases said : s.deliverError? with
    | none =>
      rw [verdict_of_taken ahead step found said]
      refine mem_modify_of_ne other rfl fun p hp own => ?_
      exact hs.accounted.eq_of_id mem hp (congrArg RequestKey.id own)
    | some failure =>
      rw [(verdict_of_refused hs ahead step found said).others, List.mem_filter,
        decide_eq_true_eq, and_iff_left_iff_imp]
      exact fun _ own => other (congrArg RequestKey.id own)

/-! ## Whose request it is -/

/-- What is outstanding under the id of a request that was registered is the request itself, or one
that was registered since, when the request is over. -/
theorem own_or_later {task : Task} {p : Pending} (hv : v.Sane) (fate : ∀ key, v.Fate key)
    (bears : v.Bears w task p) (later : Reaches w s) (mem : q ∈ s.ledger.entries)
    (id : q.id = p.id) : q.key = p.key ∨
      s.ledger.findExact? p.key = none ∧ p.serial < q.serial ∧
        ∃ x y task r, Reaches w x ∧ x.Bears y task r ∧ r.key = q.key ∧ Reaches y s := by
  have sane := bears.next.sane hv
  have there := (mem_of_trace (congrArg Trace.outstanding bears.after)).1
  by_cases own : q.key = p.key
  · exact .inl own
  · have outstanding : q ∈ (s.trace q.key).outstanding := mem_outstanding.2 ⟨mem, rfl⟩
    -- When the first was registered the other was not there yet.
    have nothing : w.trace q.key = {} := by
      cases bears.next.fate hv (fate q.key) with
      | nothing nothing => exact nothing
      | @outstanding r _ entry =>
        obtain ⟨hr, same⟩ := mem_of_trace (congrArg Trace.outstanding entry)
        have id' : r.id = p.id := (congrArg RequestKey.id same).trans id
        rw [sane.accounted.eq_of_id there hr id'] at same
        exact (own same.symm).elim
      | settled known own' settled =>
        have gone := (later.settled sane (own' ▸ known) (own' ▸ settled)).outstanding_eq_nil
        rw [own'] at gone
        rw [gone] at outstanding
        cases outstanding
    obtain ⟨x, y, task, r, toX, born, toS, same⟩ :=
      later.born sane nothing fun none => by rw [none] at outstanding; cases outstanding
    refine .inr ⟨?_, ?_, x, y, task, r, toX, born, same, toS⟩
    · cases found : s.ledger.findExact? p.key with
      | none => rfl
      | some p' =>
        obtain ⟨mem', own'⟩ := mem_of_findExact? found
        have id' : p'.id = q.id := (congrArg RequestKey.id own').trans id.symm
        rw [((later.sane sane).accounted.eq_of_id mem mem' id')] at own'
        exact (own own').elim
    · have before : p.serial < w.ledger.nextSerial := bears.known hv
      have between := toX.nextSerial_le sane
      have after : r.serial = x.ledger.nextSerial := (born.serial (toX.sane sane)).1
      have serial : r.serial = q.serial := congrArg RequestKey.serial same
      omega

/-! ## The request concerned -/

/-- For every operation that was accepted, whatever the provider's end does meanwhile and wherever
the counter of the id pool comes to stand: what it said when it was given the request is acted upon
for the request outstanding under the id by then, and leaves all others as they are.  That is the
request of the operation, or one registered since under the same id when the request is over; it is
the request itself as long as the counter was not set and has not gone round. -/
theorem verdict_concerns_holder_of_id (start : Start s₀) (reached : Reaches s₀ v)
    (starts : v.Starts w operation tag followUp key) (later : Reaches w s)
    (ahead : s.agenda = .verdict key :: rest) (step : s.step = some t) :
    s.ActsOn t key.id ∧
    ∀ q, s.ledger.find? key.id = some q →
      (q.key = key ∨ s.ledger.findExact? key = none ∧ key.serial < q.serial ∧
        ∃ x y task r, Reaches w x ∧ x.Bears y task r ∧ r.key = q.key ∧ Reaches y s) ∧
      ∀ draws, w.Onward draws s → travelled draws < 2 ^ 32 → q.key = key := by
  have saneV := reached.sane start.sane
  have fateV : ∀ key, v.Fate key := fun key => reached.fate start.sane (start.fate key)
  obtain ⟨self, p, rfl, bears, -⟩ := starts.exists_bears saneV (fateV key)
  have sane := later.sane (bears.next.sane saneV)
  refine ⟨actsOn_of_verdict sane ahead step, fun q found => ?_⟩
  have mem := List.mem_of_find?_eq_some found
  have id : q.id = p.key.id := by simpa using List.find?_some found
  exact ⟨own_or_later saneV fateV bears later mem id,
    fun draws onward lap => onward.eq_of_id bears saneV lap mem id⟩

/-- A request is handed over and taken: it is marked as delivered. -/
theorem verdict_concerns_holder_of_id_of_taken :
    ∃ (v w s t : State) (key : RequestKey) (q : Pending),
      v.Starts w (.getMetadata "/a") none [] key ∧ Reaches w s ∧ s.step = some t ∧
      s.ActsOn t key.id ∧ s.ledger.find? key.id = some q ∧ q.key = key ∧
      t.ledger = s.ledger.modify key ({ · with stage := .delivered }) := by
  have called := Next.call (s := ofMount
    { info := { providerId := "p", fileSystemId := "f", displayName := "d" } } (.direct {}) true)
    (.operate (.getMetadata "/a") none []) ⟨0⟩
  obtain ⟨w, s, t, rest, q, starts, hs, ahead, step, found, own, accepts⟩ :
      ∃ (w s t : State) (rest : List Task) (q : Pending), State.Starts
        ((ofMount { info := { providerId := "p", fileSystemId := "f", displayName := "d" } }
          (.direct {}) true).push [.issue (.operate (.getMetadata "/a") none []) ⟨0⟩])
        w (.getMetadata "/a") none [] ⟨⟨1⟩, 1⟩ ∧
      w.follow? [.work, .work] = some s ∧ s.agenda = .verdict ⟨⟨1⟩, 1⟩ :: rest ∧
      s.step = some t ∧ s.ledger.find? ⟨1⟩ = some q ∧ q.key = ⟨⟨1⟩, 1⟩ ∧
      s.deliverError? = none :=
    ⟨_, _, _, _, _, ⟨rfl, ⟨⟨0⟩, [], rfl⟩, rfl, _, rfl, .refl _⟩, rfl, rfl, rfl, rfl, rfl, rfl⟩
  have later := reaches_of_follow? hs
  obtain ⟨acts, -⟩ := verdict_concerns_holder_of_id (.mount _ _ _ _ _) (.head called (.refl _))
    starts later ahead step
  exact ⟨_, w, s, t, _, q, starts, later, step, acts, found, own, own ▸ acts.taken q found accepts⟩

/-- While it is given a request the provider's end completes it, the counter comes to stand at its
id again, and another request is registered, which is given the id.  The answer of the provider's
end marks the other request as delivered, which nobody has been given; a refusal fails it. -/
theorem verdict_on_another :
    (∃ (s t : State) (key : RequestKey) (q : Pending), Reaches (ofMount
        { info := { providerId := "p", fileSystemId := "f", displayName := "d" } }
        (.direct {}) true) s ∧
      s.agenda.head? = some (.verdict key) ∧ s.ledger.findExact? key = none ∧
      s.ledger.find? key.id = some q ∧ q.key ≠ key ∧ q.stage = .created ∧
      s.step = some t ∧ (t.ledger.findExact? q.key).map (·.stage) = some .delivered) ∧
    ∃ (s t : State) (key : RequestKey) (q : Pending), Reaches (ofMount
        { info := { providerId := "p", fileSystemId := "f", displayName := "d" } }
        (.direct { deliverError := some .connectionAborted }) true) s ∧
      s.agenda.head? = some (.verdict key) ∧ s.ledger.findExact? key = none ∧
      s.ledger.find? key.id = some q ∧ q.key ≠ key ∧ s.step = some t ∧
      t.agenda.head? = some (.finish q (.rejected .connectionAborted)) := by
  -- The operation is accepted and handed over; what follows happens meanwhile.
  let meanwhile : List Choice :=
    .call (.operate (.getMetadata "/a") none []) ⟨0⟩ :: List.replicate 3 .work ++
      .call (.deliver (.given ⟨1⟩) (.success .nothing)) ⟨0⟩ :: List.replicate 8 .work ++
      .rewind 1 :: .call (.create .getMetadata none false none [] [] []) ⟨0⟩ ::
        List.replicate 4 .work
  constructor
  · obtain ⟨s, t, q, hs, ahead, gone, found, other, stage, step, marked⟩ :
        ∃ (s t : State) (q : Pending), (ofMount
          { info := { providerId := "p", fileSystemId := "f", displayName := "d" } }
          (.direct {}) true).follow? meanwhile = some s ∧
        s.agenda.head? = some (.verdict ⟨⟨1⟩, 1⟩) ∧ s.ledger.findExact? ⟨⟨1⟩, 1⟩ = none ∧
        s.ledger.find? ⟨1⟩ = some q ∧ q.key = ⟨⟨1⟩, 2⟩ ∧ q.stage = .created ∧ s.step = some t ∧
        (t.ledger.findExact? q.key).map (·.stage) = some .delivered :=
      ⟨_, _, _, rfl, rfl, rfl, rfl, rfl, rfl, rfl, rfl⟩
    exact ⟨s, t, _, q, reaches_of_follow? hs, ahead, gone, found, by rw [other]; decide, stage,
      step, marked⟩
  · obtain ⟨s, t, q, hs, ahead, gone, found, other, step, fails⟩ :
        ∃ (s t : State) (q : Pending), (ofMount
          { info := { providerId := "p", fileSystemId := "f", displayName := "d" } }
          (.direct { deliverError := some .connectionAborted }) true).follow? meanwhile = some s ∧
        s.agenda.head? = some (.verdict ⟨⟨1⟩, 1⟩) ∧ s.ledger.findExact? ⟨⟨1⟩, 1⟩ = none ∧
        s.ledger.find? ⟨1⟩ = some q ∧ q.key = ⟨⟨1⟩, 2⟩ ∧ s.step = some t ∧
        t.agenda.head? = some (.finish q (.rejected .connectionAborted)) :=
      ⟨_, _, _, rfl, rfl, rfl, rfl, rfl, rfl, rfl⟩
    exact ⟨s, t, _, q, reaches_of_follow? hs, ahead, gone, found, by rw [other]; decide, step,
      fails⟩

end FileRelay.State
