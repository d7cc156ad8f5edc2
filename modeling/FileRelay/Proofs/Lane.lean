import FileRelay.Proofs.Replay
import FileRelay.Proofs.Debt

/-!
# The order of what the provider sends

A message from the provider is put at the end of what waits, and the driver routes what waits
first.  So the messages that were put into the channel are, in this order, those that were routed,
those that were lost, and those that wait.  None is lost but with the driver, which may be
discarded while it does not run, and with the manager: once this is gone the driver takes one
message more, and nobody is there to be given it.
-/

namespace FileRelay

/-- Whether the provider may put a message into the channel. -/
def ChannelLink.takes (link : ChannelLink) : Prop :=
  link.sending ∧ link.driver ≠ .discarded ∧ link.inbox.length < link.capacity

namespace State

variable {s₀ s t u x y : State} {task : Task} {rest : List Task} {steps : List State}
  {link : ChannelLink} {lane : Lane} {lost : List Incoming} {message : Incoming}

/-! ## What a step does to the lane -/

/-- The message that the next task puts into the channel. -/
def queues? (s : State) : Option Incoming :=
  match s.agenda with
  | .issue (.send message) _ :: _ => if (s.send message).2 = .sent then some message else none
  | _ => none

/-- What a step makes of the lane from the provider, and of the tasks of the driver. -/
inductive Drives (x y : State) (lane : Lane) : Prop
  /-- Neither is concerned. -/
  | other (new : y.lane? = some lane) (rounds : y.rounds = x.rounds) (queues : x.queues? = none)
      (routes : x.routes? = none)
  /-- The provider puts a message into the channel. -/
  | queue {message : Incoming} (there : lane.driver ≠ .discarded)
      (new : y.lane? = some { lane with inbox := lane.inbox ++ [message] })
      (rounds : y.rounds = x.rounds) (queues : x.queues? = some message) (routes : x.routes? = none)
  /-- The driver is set to work. -/
  | pump (idle : lane.driver = .idle) (new : y.lane? = some { lane with driver := .polling })
      (rounds : y.rounds = .poll :: x.rounds) (queues : x.queues? = none)
      (routes : x.routes? = none)
  /-- The driver is discarded, and what waits with it. -/
  | discard (idle : lane.driver = .idle)
      (new : y.lane? = some { lane with inbox := [], driver := .discarded })
      (rounds : y.rounds = x.rounds) (queues : x.queues? = none) (routes : x.routes? = none)
  /-- The driver routes a message. -/
  | route {message : Incoming} {inbox : List Incoming} (first : lane.inbox = message :: inbox)
      (alive : x.managerAlive) (new : y.lane? = some { lane with inbox })
      (rounds : y.rounds = x.rounds) (queues : x.queues? = none) (routes : x.routes? = some message)
  /-- The driver finds that there is nobody to route a message to. -/
  | drop {message : Incoming} {inbox : List Incoming} {word : Word} {tail : List Task}
      (first : lane.inbox = message :: inbox) (gone : x.managerAlive = false)
      (new : y.lane? = some { lane with inbox }) (old : x.rounds = .poll :: tail)
      (rounds : y.rounds = .polled word :: tail) (queues : x.queues? = none)
      (routes : x.routes? = none)
  /-- The driver finds no message. -/
  | rest {told : Bool} {word : Word} {tail : List Task} (empty : lane.inbox = [])
      (new : y.lane? = some { lane with toldOfHangUp := told }) (old : x.rounds = .poll :: tail)
      (rounds : y.rounds = .polled word :: tail) (queues : x.queues? = none)
      (routes : x.routes? = none)
  /-- The driver has done for now. -/
  | stop {word : Word} (new : y.lane? = some { lane with driver := .idle })
      (old : x.rounds = .polled word :: y.rounds) (queues : x.queues? = none)
      (routes : x.routes? = none)

theorem lane?_eq (s : State) : s.lane? = s.channel?.map ChannelLink.lane := by
  rw [lane?, channel?]
  cases s.mount with
  | none => rfl
  | some m =>
    obtain ⟨settings, files, mounted, holders, link⟩ := m
    cases link <;> rfl

theorem channel?_modifyChannel (s : State) (f : ChannelLink → ChannelLink) :
    (s.modifyChannel f).channel? = s.channel?.map f := by
  rw [channel?, channel?, modifyChannel, modifyMount]
  cases s.mount with
  | none => rfl
  | some m =>
    obtain ⟨settings, files, mounted, holders, link⟩ := m
    cases link <;> rfl

theorem lane?_modifyChannel (hc : s.channel? = some link) (f : ChannelLink → ChannelLink) :
    (s.modifyChannel f).lane? = some (f link).lane := by
  rw [lane?_eq, channel?_modifyChannel, hc]
  rfl

theorem lane?_of_channel (hc : s.channel? = some link) : s.lane? = some link.lane := by
  rw [lane?_eq, hc]
  rfl

theorem rounds_pop (ha : s.agenda = task :: rest) :
    s.rounds = [task].filter Task.ofDriver ++ ({ s with agenda := rest } : State).rounds := by
  rw [State.rounds, ha, ← List.singleton_append, List.filter_append]
  rfl

theorem queues?_of_agenda (ha : s.agenda = task :: rest)
    (other : ∀ message self, task ≠ .issue (.send message) self) : s.queues? = none := by
  rw [queues?, ha]
  split
  · rename_i message self tail first
    exact (other message self (List.cons.inj first).1).elim
  · rfl

theorem routes?_of_agenda (ha : s.agenda = task :: rest) (other : task ≠ .poll) :
    s.routes? = none := by
  rw [routes?, ha]
  split
  · rename_i first _
    exact (other (List.cons.inj first).1).elim
  · rfl

/-- What is neither the driver's nor shows that there is one does not touch the lane. -/
theorem drives_of_other (ha : x.agenda = task :: rest) (other : task.ofDriver = false)
    (calls : ∀ call self, task = .issue call self → call.ofDriver = false)
    (hl : x.lane? = some lane) :
    Drives x (({ x with agenda := rest } : State).perform task) lane := by
  have kept := (mirrors_deaf { x with agenda := rest }).inStep.perform other calls
  refine .other (kept.lane.trans hl) (kept.rounds.trans ?_) ?_ ?_
  · rw [rounds_pop ha, List.filter_cons_of_neg (by simp [other])]
    rfl
  · refine queues?_of_agenda ha fun message self sent => ?_
    cases calls _ _ sent
  · refine routes?_of_agenda ha ?_
    rintro rfl
    cases other

theorem send_of_takes (hc : s.channel? = some link) (room : link.takes) :
    s.send message =
      (s.modifyChannel ({ · with inbox := link.inbox ++ [message] }), .sent) := by
  obtain ⟨sending, there, room⟩ := room
  simp [State.send, hc, sending, there, Nat.not_le.2 room]

theorem send_of_not_takes (hc : s.channel? = some link) (room : ¬ link.takes) :
    (s.send message).1 = s ∧ (s.send message).2 ≠ .sent := by
  rw [State.send, hc]
  dsimp only
  split
  · simp
  · split
    · simp
    · split
      · simp
      · rename_i sending there full
        exact (room ⟨by simpa using sending, there, Nat.not_le.1 full⟩).elim

/-- What calls do to the lane that show whether there is a driver. -/
theorem drives_of_call {call : Call} {self : RequestId} (ha : x.agenda = .issue call self :: rest)
    (own : call.ofDriver) (hl : x.lane? = some lane) :
    Drives x (({ x with agenda := rest } : State).issue call self) lane := by
  rw [lane?_eq, Option.map_eq_some_iff] at hl
  obtain ⟨link, hc, rfl⟩ := hl
  have hc' : ({ x with agenda := rest } : State).channel? = some link := hc
  have rounds : ({ x with agenda := rest } : State).rounds = x.rounds := by
    rw [rounds_pop ha]
    rfl
  have routes : x.routes? = none := routes?_of_agenda ha (by simp)
  have lane : x.lane? = some link.lane := lane?_of_channel hc
  cases call with
  | send message =>
    have queues : x.queues? = if (x.send message).2 = .sent then some message else none := by
      rw [queues?, ha]
    show Drives x (State.reply (State.send _ _).1 _ _) _
    by_cases room : link.takes
    · rw [send_of_takes hc' room]
      rw [send_of_takes hc room, if_pos rfl] at queues
      refine .queue room.2.1 ?_ rounds queues routes
      exact (lane?_modifyChannel hc' _).trans rfl
    · rw [(send_of_not_takes hc' room).1]
      rw [if_neg (send_of_not_takes hc room).2] at queues
      exact .other lane rounds queues routes
  | pump =>
    have queues : x.queues? = none := queues?_of_agenda ha (by simp)
    rw [State.issue, hc']
    show Drives x (if _ then _ else _) _
    split
    · rename_i idle
      exact .pump idle (lane?_modifyChannel hc' _) (congrArg (Task.poll :: ·) rounds) queues routes
    · exact .other lane rounds queues routes
  | discardDriver =>
    have queues : x.queues? = none := queues?_of_agenda ha (by simp)
    rw [State.issue, hc']
    show Drives x (if _ then _ else _) _
    split
    · rename_i idle
      exact .discard idle (lane?_modifyChannel hc' _) rounds queues routes
    · exact .other lane rounds queues routes
  | _ => cases own

/-- What the driver does to the lane when it looks for a message. -/
theorem drives_of_poll (ha : x.agenda = .poll :: rest) (hl : x.lane? = some lane) :
    Drives x ({ x with agenda := rest } : State).poll lane := by
  rw [lane?_eq, Option.map_eq_some_iff] at hl
  obtain ⟨link, hc, rfl⟩ := hl
  let popped : State := { x with agenda := rest }
  have hc' : popped.channel? = some link := hc
  have old : x.rounds = .poll :: popped.rounds := rounds_pop ha
  have alive : popped.managerAlive = x.managerAlive := (stays_of_pop ha rfl).1
  have queues : x.queues? = none := queues?_of_agenda ha (by simp)
  show Drives x popped.poll _
  rw [State.poll, hc']
  obtain ⟨outbox, listening, inbox, capacity, sending, driver, told⟩ := link
  cases inbox with
  | cons message more =>
    have taken : Change popped .poll popped (popped.modifyChannel ({ · with inbox := more })) :=
      .modifyChannel _ _
    have new := lane?_modifyChannel hc' ({ · with inbox := more })
    dsimp only
    rw [taken.stays.1, alive]
    split
    · rename_i alive
      have kept := (mirrors_deaf (((popped.modifyChannel ({ · with inbox := more })).note
        (.routing message.requestId)).push [.leaveManager, .poll])).inStep.deliver
          message.requestId message.delivery
      refine .route rfl alive (kept.lane.trans new) (kept.rounds.trans old.symm) queues ?_
      simp [routes?, ha, hc, alive]
    · rename_i gone
      refine .drop rfl (by simpa using gone) new old rfl queues ?_
      simp [routes?, ha, hc, gone]
  | nil =>
    have routes : x.routes? = none := by simp [routes?, ha, hc]
    have hung : ∀ notice : Notice, (((popped.note notice).modifyChannel
        ({ · with toldOfHangUp := true })).lane? = some _) := fun notice =>
      lane?_modifyChannel (s := popped.note notice) hc' ({ · with toldOfHangUp := true })
    dsimp only
    split
    · exact .rest rfl (lane?_of_channel hc') old rfl queues routes
    · split
      · split
        · exact .rest rfl (hung _) old rfl queues routes
        · exact .rest rfl (hung _) old rfl queues routes
      · exact .rest rfl (hung _) old rfl queues routes

/-- What any step does to the lane. -/
theorem drives_of_step (step : x.step = some y) (hl : x.lane? = some lane) : Drives x y lane := by
  obtain ⟨task, rest, ha, rfl⟩ := exists_of_step step
  cases own : task.ofDriver with
  | true =>
    cases task with
    | poll => exact drives_of_poll ha hl
    | polled word =>
      refine .stop ?_ (rounds_pop ha) (queues?_of_agenda ha (by simp))
        (routes?_of_agenda ha (by simp))
      rw [lane?_eq, Option.map_eq_some_iff] at hl
      obtain ⟨link, hc, rfl⟩ := hl
      exact lane?_modifyChannel (s := { x with agenda := rest }) hc _
    | _ => cases own
  | false =>
    by_cases calls : ∃ call self, task = .issue call self ∧ call.ofDriver
    · obtain ⟨call, self, rfl, shows⟩ := calls
      exact drives_of_call ha shows hl
    · refine drives_of_other ha own (fun call self issued => ?_) hl
      exact Bool.eq_false_iff.2 fun shows => calls ⟨call, self, issued, shows⟩

/-! ## The order in which messages are routed -/

/-- The messages that were put into the channel in some steps. -/
def queued (steps : List State) : List Incoming := steps.filterMap queues?

/-- The messages that the driver routed in some steps. -/
def routed (steps : List State) : List Incoming := steps.filterMap routes?

/-- Where the messages are that were put into the channel in some steps: they were routed, they were
lost, or they wait, in this order.  The driver is under way if and only if it runs. -/
structure Underway (steps : List State) (u : State) (lane : Lane) (lost : List Incoming) :
    Prop where
  there : u.lane? = some lane
  order : queued steps = routed steps ++ (lost ++ lane.inbox)
  kept : lost = [] ∨ u.managerAlive = false ∨ lane.driver = .discarded ∧ lane.inbox = []
  turn : lane.driver = .polling ∧ (∃ task, u.rounds = [task]) ∨
    lane.driver ≠ .polling ∧ u.rounds = []

theorem queued_concat (steps : List State) (x : State) :
    queued (steps ++ [x]) = queued steps ++ x.queues?.toList := by
  rw [queued, queued, List.filterMap_append]
  cases hx : x.queues? <;> simp [hx]

theorem routed_concat (steps : List State) (x : State) :
    routed (steps ++ [x]) = routed steps ++ x.routes?.toList := by
  rw [routed, routed, List.filterMap_append]
  cases hx : x.routes? <;> simp [hx]

theorem Underway.step (h : Underway steps x lane lost) (drives : Drives x y lane)
    (gone : x.managerAlive = false → y.managerAlive = false) :
    ∃ lane lost, Underway (steps ++ [x]) y lane lost := by
  have order : ∀ {inbox : List Incoming}, x.queues? = none → x.routes? = none →
      lost ++ lane.inbox = inbox → queued (steps ++ [x]) = routed (steps ++ [x]) ++ inbox := by
    rintro inbox queues routes rfl
    rw [queued_concat, routed_concat, queues, routes, h.order]
    simp
  have kept : lane.driver ≠ .discarded → lost = [] ∨ y.managerAlive = false := by
    intro there
    rcases h.kept with none | dead | ⟨discarded, -⟩
    · exact .inl none
    · exact .inr (gone dead)
    · exact (there discarded).elim
  have busy : ∀ {task tail}, x.rounds = task :: tail → lane.driver = .polling ∧ tail = [] := by
    intro task tail old
    rcases h.turn with ⟨polling, other, rounds⟩ | ⟨-, none⟩
    · exact ⟨polling, (List.cons.inj (old.symm.trans rounds)).2⟩
    · rw [none] at old
      cases old
  have idle : lane.driver = .idle → x.rounds = [] := by
    intro idle
    rcases h.turn with ⟨polling, -⟩ | ⟨-, none⟩
    · rw [idle] at polling
      cases polling
    · exact none
  cases drives with
  | other new rounds queues routes =>
    exact ⟨_, lost, new, order queues routes rfl, h.kept.imp_right (Or.imp_left gone),
      rounds ▸ h.turn⟩
  | queue there new rounds queues routes =>
    refine ⟨_, lost, new, ?_, (kept there).imp_right .inl, rounds ▸ h.turn⟩
    rw [queued_concat, routed_concat, queues, routes, h.order]
    simp
  | pump still new rounds queues routes =>
    refine ⟨_, lost, new, order queues routes rfl, ?_, .inl ⟨rfl, .poll, ?_⟩⟩
    · exact (kept (by simp [still])).imp_right .inl
    · rw [rounds, idle still]
  | discard still new rounds queues routes =>
    refine ⟨_, lost ++ lane.inbox, new, ?_, .inr (.inr ⟨rfl, rfl⟩), .inr ⟨nofun, ?_⟩⟩
    · exact order queues routes (List.append_nil _).symm
    · rw [rounds, idle still]
  | @route message inbox first alive new rounds queues routes =>
    have none : lost = [] := by
      rcases h.kept with none | dead | ⟨-, empty⟩
      · exact none
      · rw [dead] at alive
        cases alive
      · rw [first] at empty
        cases empty
    refine ⟨_, [], new, ?_, .inl rfl, rounds ▸ h.turn⟩
    rw [queued_concat, routed_concat, queues, routes, h.order, none, first]
    simp
  | @drop message inbox word tail first dead new old rounds queues routes =>
    obtain ⟨polling, rfl⟩ := busy old
    refine ⟨_, lost ++ [message], new, ?_, .inr (.inl (gone dead)), .inl ⟨polling, _, rounds⟩⟩
    exact order queues routes (by simp [first])
  | @rest told word tail empty new old rounds queues routes =>
    obtain ⟨polling, rfl⟩ := busy old
    exact ⟨_, lost, new, order queues routes rfl, h.kept.imp_right (Or.imp_left gone),
      .inl ⟨polling, _, rounds⟩⟩
  | @stop word new old queues routes =>
    obtain ⟨polling, none⟩ := busy old
    refine ⟨_, lost, new, order queues routes rfl, ?_, .inr ⟨nofun, none⟩⟩
    exact (kept (by simp [polling])).imp_right .inl

/-- In every run of a mount over channels. -/
theorem Course.underway (start : Start s₀) (course : Course s₀ steps u)
    (first : ∃ lane, s₀.lane? = some lane ∧ lane.inbox = [] ∧ lane.driver ≠ .polling) :
    ∃ lane lost, Underway steps u lane lost := by
  induction course with
  | start =>
    obtain ⟨lane, there, empty, idle⟩ := first
    refine ⟨lane, [], there, by rw [empty]; rfl, .inl rfl, .inr ⟨idle, ?_⟩⟩
    cases start <;> rfl
  | @work steps t u course step fair ih =>
    obtain ⟨lane, lost, h⟩ := ih
    exact h.step (drives_of_step step h.there)
      ((Next.work step fair).gone_of_gone (course.sane start).upkeep)
  | @call steps t course call self ih =>
    obtain ⟨lane, lost, h⟩ := ih
    have pushed : Change t .poll t (t.push [.issue call self]) := .again t call self
    exact ⟨lane, lost, h.there, h.order, pushed.stays.1 ▸ h.kept, h.turn⟩
  | rewind _ n ih =>
    obtain ⟨lane, lost, h⟩ := ih
    exact ⟨lane, lost, h.there, h.order, h.kept, h.turn⟩

end State

end FileRelay
