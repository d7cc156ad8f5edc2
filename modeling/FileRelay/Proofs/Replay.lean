import FileRelay.Proofs.Mirror
import FileRelay.Proofs.Upkeep

/-!
# Routing what the provider sends

The driver of a mount takes the provider's messages from the channel, one by one.  In place of that
somebody might deliver each of them to the request manager, as he gets it: to a mount that is deaf,
whose own driver was discarded.  Such a *replay* of a run does whatever the run does, and where the
driver routes a message it delivers the message, and where the driver finds that the provider has
hung up it shuts the mount down.  It comes to the same as the run.  So all that remains to be said
of the driver is which messages it routes: those that were put into the channel, in that order,
until somebody discards it or the manager is gone.
-/

namespace FileRelay

namespace State

variable {s₀ s t u v w x y z : State} {task : Task} {rest : List Task} {event : Event}
  {choices : List Choice} {steps before after : List State} {link : ChannelLink} {lane : Lane}
  {lost : List Incoming} {message : Incoming} {tasks : List Task}

/-! ## What only one of both shows -/

/-- The same, but that the driver was discarded. -/
def deaf (s : State) : State :=
  { s with
    mount := s.mount.map Mount.deaf
    agenda := s.agenda.filter fun task => !task.ofDriver }

theorem mirrors_deaf (s : State) : Mirrors s s.deaf :=
  ⟨rfl, rfl, rfl, rfl, rfl, rfl, rfl, rfl, rfl, rfl, rfl, rfl, rfl, rfl⟩

namespace Mirrors

theorem emit_left (h : Mirrors s t) (own : event.ofDriver) : Mirrors (s.emit event) t :=
  { h with history := by rw [h.history, State.emit, List.filter_cons_of_neg (by simp [own])] }

theorem note_left (h : Mirrors s t) (notice : Notice) (own : (Event.noticed notice).ofDriver) :
    Mirrors (s.note notice) t :=
  h.emit_left own

theorem emit_right (h : Mirrors s t) (own : event.ofDriver) : Mirrors s (t.emit event) :=
  { h with history := by rw [← h.history, State.emit, List.filter_cons_of_neg (by simp [own])] }

theorem push_left (h : Mirrors s t) (own : ∀ x ∈ tasks, x.ofDriver) : Mirrors (s.push tasks) t :=
  { h with
    agenda := by
      have none : tasks.filter (fun task => !task.ofDriver) = [] :=
        List.filter_eq_nil_iff.2 fun x hx => by simp [own x hx]
      rw [h.agenda, State.push, List.filter_append, none, List.nil_append] }

theorem push_append (h : Mirrors s t) (front back : List Task)
    (plain : ∀ x ∈ front, x.ofDriver = false) (own : ∀ x ∈ back, x.ofDriver) :
    Mirrors (s.push (front ++ back)) (t.push front) := by
  have both := ((h.push_left own).inStep.push plain).toMirrors
  rwa [State.push, State.push, ← List.append_assoc] at both

theorem modifyChannel_left (h : Mirrors s t) {f : ChannelLink → ChannelLink}
    (same : ∀ link, (f link).deaf = link.deaf) : Mirrors (s.modifyChannel f) t :=
  { h with
    mount := by
      rw [h.mount, State.modifyChannel, State.modifyMount, Option.map_map]
      refine congrArg (Option.map · s.mount) (funext fun m => ?_)
      obtain ⟨settings, files, mounted, holders, link⟩ := m
      cases link with
      | direct => rfl
      | channel link => simp [Mount.deaf, Link.deaf, same] }

end Mirrors

/-! ## A run without the driver -/

/-- The message that the next task routes. -/
def routes? (s : State) : Option Incoming :=
  match s.agenda, s.channel? with
  | .poll :: _, some { inbox := message :: _, .. } => if s.managerAlive then some message else none
  | _, _ => none

/-- Whether the next task takes a mount down whose provider has hung up. -/
def losesProvider (s : State) : Bool :=
  match s.agenda, s.channel? with
  | .poll :: _, some { inbox := [], sending := false, toldOfHangUp := false, .. } =>
    s.mount?.isSome
  | _, _ => false

/-- What may happen to a mount whose driver does nothing. -/
inductive Relay
  /-- Things take their course. -/
  | go (choice : Choice)
  /-- A message of the provider is delivered to the request manager. -/
  | deliver (message : Incoming)
  /-- The mount is shut down. -/
  | shutDown

/-- What a message does is what a call does that delivers it, but for the answer; the same is true
of a shutdown. -/
def relay? (s : State) : Relay → Option State
  | .go choice => s.take? choice
  | .deliver message =>
    if s.managerAlive then
      some ((s.push [.leaveManager]).deliver message.requestId message.delivery)
    else none
  | .shutDown => if s.mount?.isSome then some (s.push [.takeDown, .leaveMount]) else none

/-- Does some such things, one after the other. -/
def replay? (s : State) : List Relay → Option State
  | [] => some s
  | relay :: rest => (s.relay? relay).bind (replay? · rest)

/-- What to do in place of a choice where nobody routes messages. -/
def instead (s : State) (choice : Choice) : List Relay :=
  match choice, s.agenda with
  | .work, .poll :: _ =>
    match s.routes? with
    | some message => [.deliver message]
    | none => if s.losesProvider then [.shutDown] else []
  | .work, .polled _ :: _ => []
  | choice, _ => [.go choice]

theorem replay?_go {choice : Choice} (h : s.take? choice = some t) :
    s.replay? [.go choice] = some t := by
  rw [replay?, relay?, h]
  rfl

namespace Mirrors

theorem pop (h : Mirrors s t) (ha : s.agenda = task :: rest) (other : task.ofDriver = false) :
    ∃ rest', t.agenda = task :: rest' ∧
      Mirrors { s with agenda := rest } { t with agenda := rest' } := by
  refine ⟨rest.filter fun task => !task.ofDriver, ?_, { h with agenda := rfl }⟩
  rw [h.agenda, ha, List.filter_cons_of_pos (by simp [other])]

theorem pop_driver (h : Mirrors s t) (ha : s.agenda = task :: rest) (own : task.ofDriver) :
    Mirrors { s with agenda := rest } t :=
  { h with agenda := by rw [h.agenda, ha, List.filter_cons_of_neg (by simp [own])] }

theorem trespasses {rest' : List Task} (h : Mirrors s t) (hs : s.agenda = task :: rest)
    (ht : t.agenda = task :: rest') (trespass : t.Trespasses) : s.Trespasses := by
  obtain ⟨shared, ref, self, tail, first, owned⟩ := trespass
  obtain ⟨rfl, -⟩ := List.cons.inj (ht.symm.trans first)
  exact ⟨h.callerPool ▸ shared, ref, self, rest, hs, h.ownedIds ▸ owned⟩

/-- A mount whose driver was discarded takes no messages, and has nothing to run or discard. -/
theorem issue_ofDriver (h : Mirrors s t) {call : Call} (self : RequestId) (own : call.ofDriver) :
    Mirrors (s.issue call self) (t.issue call self) := by
  cases call with
  | send message =>
    have deaf : (t.send message).1 = t := by
      rw [State.send, h.channel?]
      cases s.channel? with
      | none => rfl
      | some link =>
        dsimp only [Option.map_some, ChannelLink.deaf]
        split <;> rfl
    have sent : Mirrors (s.send message).1 t := by
      unfold State.send
      split
      · exact h
      · split
        · exact h
        · split
          · exact h
          · split
            · exact h
            · exact h.modifyChannel_left fun _ => rfl
    show Mirrors ((s.send message).1.reply _ _) ((t.send message).1.reply _ _)
    rw [deaf]
    exact (sent.emit_left rfl).emit_right rfl
  | pump =>
    rw [State.issue, State.issue, h.channel?]
    cases s.channel? with
    | none => exact (h.emit_left rfl).emit_right rfl
    | some link =>
      refine emit_right ?_ rfl
      show Mirrors (if _ then _ else _) t
      split
      · refine push_left (h.modifyChannel_left ?_) ?_
        · exact fun _ => rfl
        · simp [Task.ofDriver]
      · exact h.emit_left rfl
  | discardDriver =>
    rw [State.issue, State.issue, h.channel?]
    cases s.channel? with
    | none => exact (h.emit_left rfl).emit_right rfl
    | some link =>
      refine emit_right ?_ rfl
      show Mirrors (if _ then _ else _) t
      split
      · refine emit_left (h.modifyChannel_left ?_) rfl
        exact fun _ => rfl
      · exact h.emit_left rfl
  | _ => cases own

/-- A message that waits is routed, and delivered in the replay, as long as the manager is there. -/
theorem poll_of_waits {inbox : List Incoming} (h : Mirrors s t) (ha : s.agenda = .poll :: rest)
    (hc : s.channel? = some link) (waits : link.inbox = message :: inbox) :
    ∃ v, t.replay? (s.instead .work) = some v ∧
      Mirrors ({ s with agenda := rest } : State).poll v := by
  have hc' : ({ s with agenda := rest } : State).channel? = some link := hc
  have popped := h.pop_driver ha rfl
  have alive : t.managerAlive = s.managerAlive :=
    popped.managerAlive.trans (stays_of_pop ha rfl).1
  have taken : Mirrors (({ s with agenda := rest } : State).modifyChannel ({ · with inbox })) t :=
    popped.modifyChannel_left fun _ => rfl
  rw [State.poll, hc']
  dsimp only
  rw [waits]
  dsimp only
  rw [← taken.managerAlive]
  obtain ⟨outbox, listening, messages, capacity, sending, driver, told⟩ := link
  cases waits
  cases held : t.managerAlive with
  | true =>
    have replay : s.instead .work = [.deliver message] := by
      simp [instead, routes?, ha, hc, ← alive, held]
    refine ⟨(t.push [.leaveManager]).deliver message.requestId message.delivery,
      by rw [replay, replay?, relay?, if_pos held, Option.bind_some, replay?], ?_⟩
    have routed := (taken.note_left (.routing message.requestId) rfl).push_append
      [.leaveManager] [.poll] (by simp [Task.ofDriver]) (by simp [Task.ofDriver])
    rw [if_pos rfl]
    exact (routed.inStep.deliver _ _).toMirrors
  | false =>
    have replay : s.instead .work = [] := by
      simp [instead, routes?, losesProvider, ha, hc, ← alive, held]
    refine ⟨t, by rw [replay, replay?], ?_⟩
    exact push_left (taken.emit_left rfl) (by simp [Task.ofDriver])

/-- When nothing waits the round ends, and the mount is shut down in the replay if it is taken down
here. -/
theorem poll_of_empty (h : Mirrors s t) (ha : s.agenda = .poll :: rest)
    (hc : s.channel? = some link) (empty : link.inbox = []) :
    ∃ v, t.replay? (s.instead .work) = some v ∧
      Mirrors ({ s with agenda := rest } : State).poll v := by
  have hc' : ({ s with agenda := rest } : State).channel? = some link := hc
  have popped := h.pop_driver ha rfl
  have inUse : t.mount?.isSome = s.mount?.isSome :=
    popped.isSome_mount?.trans (stays_of_pop ha rfl).2
  have ends : ∀ {u word}, Mirrors u t → Mirrors (u.push [.polled word]) t := fun hu =>
    hu.push_left (by simp [Task.ofDriver])
  have hung : Mirrors ((({ s with agenda := rest } : State).note .providerHungUp).modifyChannel
      ({ · with toldOfHangUp := true })) t :=
    (popped.emit_left rfl).modifyChannel_left fun _ => rfl
  have there := hung.isSome_mount?
  obtain ⟨outbox, listening, messages, capacity, sending, driver, told⟩ := link
  cases empty
  have nobody : sending ∨ told ∨ t.mount?.isSome = false → s.instead .work = [] := by
    intro none
    cases sending <;> cases told <;> simp_all [instead, routes?, losesProvider]
  rw [State.poll, hc']
  dsimp only
  cases sending with
  | true => exact ⟨t, by rw [nobody (.inl rfl), replay?], ends popped⟩
  | false =>
    rw [if_neg Bool.false_ne_true]
    cases hm : State.mount? _ with
    | none =>
      rw [hm] at there
      exact ⟨t, by rw [nobody (.inr (.inr there)), replay?], ends hung⟩
    | some m =>
      dsimp only
      cases told with
      | true => exact ⟨t, by rw [nobody (.inr (.inl rfl)), replay?], ends hung⟩
      | false =>
        rw [hm, Option.isSome_some] at there
        have replay : s.instead .work = [.shutDown] := by
          simp [instead, routes?, losesProvider, ha, hc, ← inUse, there]
        refine ⟨t.push [.takeDown, .leaveMount],
          by rw [replay, replay?, relay?, if_pos there, Option.bind_some, replay?], ?_⟩
        rw [if_neg Bool.false_ne_true]
        exact (hung.note_left _ rfl).push_append [.takeDown, .leaveMount] [.polled .finished]
          (by simp [Task.ofDriver]) (by simp [Task.ofDriver])

/-- What the driver does with a message that waits, or with none. -/
theorem poll (h : Mirrors s t) (ha : s.agenda = .poll :: rest) :
    ∃ v, t.replay? (s.instead .work) = some v ∧
      Mirrors ({ s with agenda := rest } : State).poll v := by
  cases hc : s.channel? with
  | none =>
    have hc' : ({ s with agenda := rest } : State).channel? = none := hc
    have replay : s.instead .work = [] := by simp [instead, routes?, losesProvider, ha, hc]
    refine ⟨t, by rw [replay, replay?], ?_⟩
    rw [State.poll, hc']
    exact h.pop_driver ha rfl
  | some link =>
    cases waits : link.inbox with
    | nil => exact h.poll_of_empty ha hc waits
    | cons message inbox => exact h.poll_of_waits ha hc waits

/-- A step is done to both alike, unless it is the driver's. -/
theorem work (h : Mirrors s t) (step : s.step = some u) (fair : ¬ s.Trespasses) :
    ∃ v, t.replay? (s.instead .work) = some v ∧ Mirrors u v := by
  obtain ⟨task, rest, ha, rfl⟩ := exists_of_step step
  cases own : task.ofDriver with
  | true =>
    cases task with
    | poll => exact h.poll ha
    | polled word =>
      have replay : s.instead .work = [] := by simp [instead, ha]
      have idle : Mirrors
          (({ s with agenda := rest } : State).modifyChannel ({ · with driver := .idle })) t :=
        (h.pop_driver ha rfl).modifyChannel_left fun _ => rfl
      exact ⟨t, by rw [replay, replay?], emit_left idle rfl⟩
    | _ => cases own
  | false =>
    obtain ⟨rest', ht, popped⟩ := h.pop ha own
    have replay : s.instead .work = [.go .work] := by
      cases task with
      | poll | polled => cases own
      | _ => simp [instead, ha]
    have taken : t.take? .work = some (({ t with agenda := rest' } : State).perform task) := by
      rw [take?, if_neg, step_of_agenda ht]
      exact fun trespass => fair (h.trespasses ha ht (trespasses?_iff.1 trespass))
    refine ⟨_, by rw [replay, replay?_go taken], ?_⟩
    by_cases calls : ∃ call self, task = .issue call self ∧ call.ofDriver
    · obtain ⟨call, self, rfl, shows⟩ := calls
      exact popped.issue_ofDriver self shows
    · refine (popped.inStep.perform own fun call self issued => ?_).toMirrors
      exact Bool.eq_false_iff.2 fun shows => calls ⟨call, self, issued, shows⟩

/-- However a run goes on, its replay comes to the same. -/
theorem take (h : Mirrors s t) {choice : Choice} (taken : s.take? choice = some u) :
    ∃ v, t.replay? (s.instead choice) = some v ∧ Mirrors u v := by
  cases choice with
  | work =>
    rw [take?, Option.ite_none_left_eq_some] at taken
    exact h.work taken.2 fun trespass => taken.1 (trespasses?_iff.2 trespass)
  | call call self =>
    cases taken
    exact ⟨_, replay?_go rfl, (h.inStep.push (by simp [Task.ofDriver])).toMirrors⟩
  | rewind n =>
    cases taken
    refine ⟨_, replay?_go rfl, { h with pool := ?_ }⟩
    rw [h.pool]

end Mirrors

end State

end FileRelay
