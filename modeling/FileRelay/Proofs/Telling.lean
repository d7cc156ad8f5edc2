import FileRelay.Proofs.Deed

/-!
# Telling

Observers are told of the moments in the life of a request in *rounds*: a task that brings such
a moment about puts one task for each observer in front of all else.  Most tasks are *mute*: they
tell nobody anything, leave the observers as they are and fill no slot.  The others register a
request, tell of an outstanding request that it goes on, finish one, do what a round has set,
fill a slot, add an observer or drop them all.  This file says so once for every task.
-/

namespace FileRelay

/-- Whether a task neither has an observer told of a moment nor fills a slot. -/
def Task.mute : Task → Bool
  | .tell .. | .announce .. | .grant .. => false
  | _ => true

/-- Whether a task can come before the end of a round in which nobody has made a call: it is one of
the round, a call to be made, or what the provider's end says to a cancellation. -/
def Task.ofRound : Task → Bool
  | .tell .. | .issue .. | .cancelVerdict _ => true
  | _ => false

/-- Whether an event is neither that an observer was told of a moment nor that the provider was
told of a cancellation. -/
def Event.mute : Event → Bool
  | .observed .. | .cancelled .. => false
  | _ => true

/-- Whether a moment lies between the creation of a request and its end. -/
def Moment.between : Moment → Bool
  | .delivered | .progress => true
  | .created _ | .finished .. => false

/-- What an observer is called, if it is not the one that tells the provider of cancellations. -/
def Observer.name? : Observer → Option String
  | .canceller => none
  | .watcher name _ => some name

namespace State

variable {s t u : State} {task : Task} {p : Pending} {key : RequestKey} {moment : Moment}

/-- Observers and slots stay as they are, nobody is told anything and no request is registered. -/
structure Mute (s t : State) : Prop where
  agenda : ∃ tasks, t.agenda = tasks ++ s.agenda ∧ ∀ x ∈ tasks, x.mute
  history : ∃ events, t.history = events ++ s.history ∧ ∀ event ∈ events, event.mute
  observers : t.observers = s.observers
  slots : t.slots = s.slots
  serial : t.ledger.nextSerial = s.ledger.nextSerial

/-- All observers are to be told of a moment before anything else happens. -/
structure Round (s t : State) (key : RequestKey) (moment : Moment) (back : List Task) :
    Prop where
  agenda : t.agenda = s.tells key moment ++ (back ++ s.agenda)
  history : ∃ events, t.history = events ++ s.history ∧ ∀ event ∈ events, event.mute
  observers : t.observers = s.observers
  slots : t.slots = s.slots

/-- Observers are told at most that an outstanding request goes on. -/
def Hums (s t : State) : Prop :=
  Mute s t ∨ t.ledger.nextSerial = s.ledger.nextSerial ∧ ∃ p moment back,
    p ∈ s.ledger.entries ∧ moment.between ∧ (∀ x ∈ back, x.mute) ∧ Round s t p.key moment back

theorem tells_congr (observers : t.observers = s.observers) (key : RequestKey)
    (moment : Moment) : t.tells key moment = s.tells key moment := by
  rw [tells, tells, observers]

theorem mute_of_mem_script {steps : List Call} {self : RequestId} {x : Task}
    (h : x ∈ Task.script steps self) : x.mute := by
  obtain ⟨call, -, rfl⟩ := List.mem_map.1 h
  rfl

namespace Mute

theorem trans (h : Mute s t) (k : Mute t u) : Mute s u where
  agenda := by
    obtain ⟨tasks, ht, mute⟩ := h.agenda
    obtain ⟨more, hu, mute'⟩ := k.agenda
    refine ⟨more ++ tasks, by rw [hu, ht, List.append_assoc], ?_⟩
    intro x hx
    exact (List.mem_append.1 hx).elim (mute' x) (mute x)
  history := by
    obtain ⟨events, ht, mute⟩ := h.history
    obtain ⟨more, hu, mute'⟩ := k.history
    refine ⟨more ++ events, by rw [hu, ht, List.append_assoc], ?_⟩
    intro x hx
    exact (List.mem_append.1 hx).elim (mute' x) (mute x)
  observers := k.observers.trans h.observers
  slots := k.slots.trans h.slots
  serial := k.serial.trans h.serial

/-- A round may begin after tasks have been set that tell nobody anything. -/
theorem round {back : List Task} (h : Mute s t) (mute : ∀ x ∈ back, x.mute)
    (k : Round t u key moment back) :
    ∃ back, (∀ x ∈ back, x.mute) ∧ Round s u key moment back := by
  obtain ⟨tasks, ht, mute'⟩ := h.agenda
  obtain ⟨events, hh, mutes⟩ := h.history
  obtain ⟨more, hh', mutes'⟩ := k.history
  refine ⟨back ++ tasks, ?_, ?_, ⟨more ++ events, ?_, ?_⟩, k.observers.trans h.observers,
    k.slots.trans h.slots⟩
  · intro x hx
    exact (List.mem_append.1 hx).elim (mute x) (mute' x)
  · rw [k.agenda, ht, tells_congr h.observers, List.append_assoc]
  · rw [hh', hh, List.append_assoc]
  · intro x hx
    exact (List.mem_append.1 hx).elim (mutes' x) (mutes x)

theorem hums (h : Mute s t) (ledger : t.ledger = s.ledger) (k : Hums t u) : Hums s u := by
  rcases k with k | ⟨serial, p, moment, back, mem, between, mute, k⟩
  · exact .inl (h.trans k)
  · obtain ⟨back, mute, round⟩ := h.round mute k
    exact .inr ⟨serial.trans h.serial, p, moment, back, ledger ▸ mem, between, mute, round⟩

/-! ## Small changes -/

/-- The outstanding requests, the mount, timers, clock, scripts and ids are of no concern. -/
theorem aside (agenda : t.agenda = s.agenda) (history : t.history = s.history)
    (observers : t.observers = s.observers) (slots : t.slots = s.slots)
    (serial : t.ledger.nextSerial = s.ledger.nextSerial) : Mute s t where
  agenda := ⟨[], agenda, by simp⟩
  history := ⟨[], history, by simp⟩
  observers := observers
  slots := slots
  serial := serial

theorem refl (s : State) : Mute s s := aside rfl rfl rfl rfl rfl

theorem push (s : State) {tasks : List Task} (h : ∀ x ∈ tasks, x.mute) :
    Mute s (s.push tasks) where
  agenda := ⟨tasks, rfl, h⟩
  history := ⟨[], rfl, by simp⟩
  observers := rfl
  slots := rfl
  serial := rfl

theorem push_script (s : State) (steps : List Call) (self : RequestId) :
    Mute s (s.push (Task.script steps self)) :=
  push s fun _ hx => mute_of_mem_script hx

theorem push_ending (s : State) (call : Call) (answer : Answer) :
    Mute s (s.push (ending call answer)) :=
  push s (by simp [ending, Task.mute])

theorem emit (s : State) {event : Event} (h : event.mute) : Mute s (s.emit event) where
  agenda := ⟨[], rfl, by simp⟩
  history := ⟨[event], rfl, by simpa using h⟩
  observers := rfl
  slots := rfl
  serial := rfl

theorem note (s : State) (notice : Notice) : Mute s (s.note notice) := emit s rfl

theorem reply (s : State) (call : Call) (answer : Answer) : Mute s (s.reply call answer) :=
  emit s rfl

theorem modifyMount (s : State) (f : Mount → Mount) : Mute s (s.modifyMount f) :=
  aside rfl rfl rfl rfl rfl

theorem modifyDirect (s : State) (f : DirectLink → DirectLink) : Mute s (s.modifyDirect f) :=
  modifyMount s _

theorem modifyChannel (s : State) (f : ChannelLink → ChannelLink) :
    Mute s (s.modifyChannel f) :=
  modifyMount s _

/-! ## Requests -/

theorem arm (s : State) (request : RequestKey) (deadline : Nat) :
    Mute s (s.arm request deadline) := by
  rw [State.arm]
  split
  · exact aside rfl rfl rfl rfl rfl
  · exact note s _

theorem finishNow (s : State) (p : Pending) (ending : Ending) : Mute s (s.finishNow p ending) :=
  (aside rfl rfl rfl rfl rfl : Mute s (s.pull p)).trans (push _ (by simp [Task.mute]))

theorem timeOut (s : State) (p : Pending) : Mute s (s.timeOut p) :=
  (note s _).trans (finishNow _ p _)

theorem drain (s : State) {after : List Task} (h : ∀ x ∈ after, x.mute) :
    Mute s (s.drain after) := by
  have emptied : Mute s { s with
      ledger := { s.ledger with entries := [] }
      pool := s.pool.releaseAll (s.ledger.entries.map (·.id.val)) } := aside rfl rfl rfl rfl rfl
  have mute : ∀ x ∈ s.ledger.entries.map (fun p => Task.finish p .shutDown) ++ after, x.mute := by
    intro x hx
    rcases List.mem_append.1 hx with hx | hx
    · obtain ⟨p, -, rfl⟩ := List.mem_map.1 hx
      rfl
    · exact h x hx
  unfold State.drain
  dsimp only
  split
  · exact emptied.trans (push _ mute)
  · exact (emptied.trans (note _ _)).trans (push _ mute)

theorem pass (s : State) (p : Pending) (reply : Reply) : Mute s (s.pass p reply) := by
  unfold State.pass
  split
  · dsimp only
    split
    · refine ((note s _).trans (emit _ rfl)).trans (push _ ?_)
      intro x hx
      rcases List.mem_append.1 hx with hx | hx
      · exact mute_of_mem_script hx
      · rw [List.mem_singleton.1 hx]
        rfl
    · exact (note s _).trans (aside rfl rfl rfl rfl rfl)
  · exact note s _

/-! ## The provider's end -/

theorem handOver (s : State) (request : RequestKey) (content : Request) :
    Mute s (s.handOver request content) := by
  unfold State.handOver
  split
  · exact refl s
  · split
    · exact ((emit s rfl).trans (modifyDirect _ _)).trans (push_script _ _ _)
    · exact (emit s rfl).trans (modifyChannel _ _)

theorem cancelVerdict (s : State) (request : RequestKey) : Mute s (s.cancelVerdict request) := by
  unfold State.cancelVerdict
  split
  · exact refl s
  · exact note s _

/-! ## Invoking callbacks -/

theorem registerFile? {openedBy : RequestId} {path : String} {mode : OpenMode}
    {result : Except Failure Value}
    (h : s.registerFile? openedBy path mode = some (t, result)) : Mute s t := by
  unfold State.registerFile? at h
  split at h
  · cases h
    exact note s _
  · split at h
    · split at h
      · cases h
      · cases h
        exact aside rfl rfl rfl rfl rfl
    · cases h
      exact note s _

theorem endClose (s : State) (id : HandleId) (success : Bool) :
    Mute s (s.endClose id success) := by
  unfold State.endClose
  split
  · exact refl s
  · split
    · split <;> exact aside rfl rfl rfl rfl rfl
    · exact aside rfl rfl rfl rfl rfl

theorem complete (s : State) (p : Pending) (ending : Ending) : Mute s (s.complete p ending) := by
  unfold State.complete
  split
  · split <;> exact (emit s rfl).trans (push_script _ _ _)
  · unfold State.completeOperation
    dsimp only
    split
    · split
      · exact push s (by simp [Task.mute])
      · rename_i registered
        exact (registerFile? registered).trans (push _ (by simp [Task.mute]))
    · exact (endClose s _ _).trans (push _ (by simp [Task.mute]))
    · split <;> exact push s (by simp [Task.mute])
    · exact push s (by simp [Task.mute])

theorem done (s : State) (request : RequestKey) (tag : Option String)
    (result : Except Failure Value) (followUp : List Call) :
    Mute s (s.done request tag result followUp) :=
  (emit s rfl).trans (push_script _ _ _)

/-! ## The mount, time and replies -/

theorem takeDown (s : State) : Mute s s.takeDown := by
  unfold State.takeDown
  split
  · split
    · rename_i m _ _
      have down : Mute s { s with mount := some { m with mounted := false } } :=
        aside rfl rfl rfl rfl rfl
      exact down.trans (drain _ (by simp [Task.mute]))
    · exact refl s
  · exact refl s

theorem closeFiles (s : State) (aborted : Nat) : Mute s (s.closeFiles aborted) := by
  unfold State.closeFiles
  split
  · rename_i m _
    have cleared : Mute s { s with
        pool := m.files.releaseAll s.pool, mount := some { m with files := {} } } :=
      aside rfl rfl rfl rfl rfl
    exact cleared.trans (note _ _)
  · exact refl s

theorem discardMount (s : State) : Mute s s.discardMount := by
  unfold State.discardMount
  split
  · exact refl s
  · exact push s (by simp [Task.mute])

theorem elapse (s : State) (time : Nat) : Mute s (s.elapse time) := by
  unfold State.elapse
  split
  · split
    · exact aside rfl rfl rfl rfl rfl
    · rename_i timer _
      have moved : Mute s
          { s with timers := s.timers.stop timer.request, clock := max s.clock timer.deadline } :=
        aside rfl rfl rfl rfl rfl
      dsimp only
      split
      · exact moved.trans (push _ (by simp [Task.mute]))
      · exact moved.trans ((push _ (by simp [Task.mute])).trans (timeOut _ _))
  · exact refl s

theorem polled (s : State) (word : Word) : Mute s (s.polled word) :=
  (modifyChannel s _).trans (reply _ _ _)

/-! ## Calls -/

theorem abort (s : State) (call : Call) (p : Option Pending) : Mute s (s.abort call p) := by
  unfold State.abort
  split
  · exact reply s _ _
  · exact (push_ending s _ _).trans (finishNow _ _ _)

theorem send (s : State) (message : Incoming) : Mute s (s.send message).1 := by
  unfold State.send
  split
  · exact refl s
  · split
    · exact refl s
    · split
      · exact refl s
      · split
        · exact refl s
        · exact modifyChannel s _

theorem serveChannel (s : State) (call : Call) (link : ChannelLink) :
    Mute s (s.serveChannel call link) := by
  unfold State.serveChannel
  split
  · split
    · exact (modifyChannel s _).trans (reply _ _ _)
    · exact reply s _ _
  · exact (modifyChannel s _).trans (reply _ _ _)
  · exact (modifyChannel s _).trans (reply _ _ _)
  · split
    · exact (modifyChannel s _).trans (push _ (by simp [Task.mute]))
    · exact reply s _ _
  · split
    · exact (modifyChannel s _).trans (reply _ _ _)
    · exact reply s _ _
  · exact refl s

theorem servePool (s : State) (call : PoolCall) (self : RequestId) :
    Mute s (s.issue (.pool call) self) := by
  rw [State.issue]
  split
  · exact push s (by simp [Task.mute])
  · rename_i pool answer _
    refine .trans (t := s.setHeldPool pool) ?_ (reply _ _ _)
    rw [State.setHeldPool]
    split <;> exact aside rfl rfl rfl rfl rfl

theorem withMount {serve : Mount → State} {call : Call} (h : ∀ m, Mute s (serve m)) :
    Mute s (s.withMount call serve) := by
  unfold State.withMount
  split
  · exact reply s _ _
  · exact h _

end Mute

/-! ## A request goes on -/

namespace Hums

theorem markDelivered (s : State) (id : RequestId) : Hums s (s.markDelivered id) := by
  unfold State.markDelivered
  split
  · exact .inl (.refl s)
  · rename_i p found
    refine .inr ⟨rfl, p, .delivered, [], List.mem_of_find?_eq_some found, rfl, by simp, ?_⟩
    exact ⟨rfl, ⟨[], rfl, by simp⟩, rfl, rfl⟩

theorem takePart (s : State) {p : Pending} (mem : p ∈ s.ledger.entries) (reply : Reply) :
    Hums s (s.takePart p reply) := by
  have armed : ∀ u : State, Mute s u → u.agenda = s.agenda →
      Hums s (u.push (u.tells p.key .progress ++ [.pass p reply])) := by
    intro u h agenda
    refine .inr ⟨h.serial, p, .progress, [.pass p reply], mem, rfl, by simp [Task.mute], ?_⟩
    refine ⟨?_, h.history, h.observers, h.slots⟩
    rw [State.push, agenda, tells_congr h.observers, List.append_assoc]
  unfold State.takePart
  dsimp only
  split
  · refine armed _ (.trans ?_ (.arm _ _ _)) ?_
    · exact .aside rfl rfl rfl rfl rfl
    · rw [State.arm]
      split <;> rfl
  · exact armed _ (.aside rfl rfl rfl rfl rfl) rfl

theorem deliver (s : State) (id : RequestId) (delivery : Delivery) :
    Hums s (s.deliver id delivery) := by
  unfold State.deliver
  cases found : s.ledger.find? id with
  | none => cases delivery <;> exact .inl (.note s _)
  | some p =>
    cases delivery with
    | part reply => exact takePart s (List.mem_of_find?_eq_some found) reply
    | success reply => exact .inl (.finishNow s p _)
    | error failure => exact .inl (.finishNow s p _)

theorem verdict (s : State) (request : RequestKey) : Hums s (s.verdict request) := by
  unfold State.verdict
  split
  · exact markDelivered s _
  · exact (Mute.note s _).hums rfl (deliver _ _ _)

theorem poll (s : State) : Hums s s.poll := by
  unfold State.poll
  cases s.channel? with
  | none => exact .inl (.refl s)
  | some link =>
    dsimp only
    split
    · rename_i message rest _
      split
      · refine Mute.hums (((Mute.modifyChannel s _).trans (.note _ _)).trans (.push _ ?_)) rfl
          (deliver _ _ _)
        simp [Task.mute]
      · exact .inl (((Mute.modifyChannel s _).trans (.note _ _)).trans
          (.push _ (by simp [Task.mute])))
    · have told : Mute s
          ((s.note .providerHungUp).modifyChannel ({ · with toldOfHangUp := true })) :=
        (Mute.note s _).trans (.modifyChannel _ _)
      split
      · exact .inl (.push s (by simp [Task.mute]))
      · split
        · split
          · exact .inl (told.trans (.push _ (by simp [Task.mute])))
          · exact .inl ((told.trans (.note _ _)).trans (.push _ (by simp [Task.mute])))
        · exact .inl (told.trans (.push _ (by simp [Task.mute])))

theorem withManager {serve : State} {call : Call} (h : Hums s serve) :
    Hums s (s.withManager call serve) := by
  unfold State.withManager
  split
  · exact h
  · exact .inl (.reply s _ _)

/-- Calls but those that register a request or add an observer tell at most that a request goes
on. -/
theorem issue (s : State) (call : Call) (self : RequestId)
    (create : ∀ kind timeout streams tag onSuccess onError onPart,
      call ≠ .create kind timeout streams tag onSuccess onError onPart)
    (operate : ∀ operation tag followUp, call ≠ .operate operation tag followUp)
    (observe : ∀ name hooks, call ≠ .observe name hooks) :
    Hums s (s.issue call self) := by
  cases call with
  | pool call => exact .inl (.servePool s call self)
  | create => exact (create _ _ _ _ _ _ _ rfl).elim
  | operate => exact (operate _ _ _ rfl).elim
  | observe => exact (observe _ _ rfl).elim
  | markDelivered ref =>
    exact withManager ((Mute.push_ending s _ _).hums rfl (markDelivered _ _))
  | deliver ref delivery => exact withManager ((Mute.push_ending s _ _).hums rfl (deliver _ _ _))
  | timeOut ref =>
    refine withManager (.inl ?_)
    split
    · exact .reply s _ _
    · exact (Mute.push_ending s _ _).trans (.timeOut _ _)
  | abort ref => exact withManager (.inl (.abort s _ _))
  | contains ref | count | isEmpty => exact withManager (.inl (.reply s _ _))
  | stage ref =>
    refine withManager (.inl ?_)
    split <;> exact .reply s _ _
  | shutDownRequests => exact withManager (.inl (.drain s (by simp [ending, Task.mute])))
  | abortSlot slot =>
    rw [State.issue]
    split
    · exact .inl (.reply s _ _)
    · exact .inl (.abort s _ _)
  | slotPending slot =>
    rw [State.issue]
    split <;> exact .inl (.reply s _ _)
  | managerSize => exact .inl (.reply s _ _)
  | onFinish steps =>
    refine .inl (.trans (t := { s with finishScript := steps }) ?_ (.reply _ _ _))
    exact .aside rfl rfl rfl rfl rfl
  | releaseManager =>
    rw [State.issue]
    split
    · refine .inl (.trans ?_ (.push_ending _ _ _))
      exact .aside rfl rfl rfl rfl rfl
    · exact .inl (.reply s _ _)
  | shutDown => exact .inl (.withMount fun _ => .push s (by simp [Task.mute]))
  | file id =>
    refine .inl (.withMount fun m => ?_)
    split <;> exact .reply s _ _
  | info => exact .inl (.withMount fun _ => .reply s _ _)
  | shareMount => exact .inl (.withMount fun _ => .trans (.modifyMount s _) (.reply _ _ _))
  | releaseMount =>
    rw [State.issue]
    split
    · exact .inl (.reply s _ _)
    · exact .inl (.trans (.modifyMount s _) (.push _ (by simp [Task.mute])))
  | keepManager =>
    refine .inl (.withMount fun _ => .trans ?_ (.reply _ _ _))
    exact .aside rfl rfl rfl rfl rfl
  | instruct => exact .inl ((Mute.modifyDirect s _).trans (.reply _ _ _))
  | receive | stopListening | hangUp | pump | discardDriver =>
    rw [State.issue]
    split
    · exact .inl (.reply s _ _)
    · exact .inl (.serveChannel s _ _)
  | send message => exact .inl ((Mute.send s message).trans (.reply _ _ _))
  | advance millis => exact .inl (.push s (by simp [Task.mute]))

end Hums

/-! ## Every task -/

/-- What doing a task has to do with observers and slots, from the state in which it has left the
agenda. -/
inductive Tidings (s : State) : Task → State → Prop
  | hums {task : Task} {t : State} (mute : task.mute)
      (unfinished : ∀ p ending, task ≠ .finish p ending) (h : Hums s t) : Tidings s task t
  /-- A request is registered, and a round tells of it. -/
  | enters {call : Call} {self : RequestId} {p : Pending} {back : List Task} {t : State}
      (enters : Enters (.issue call self) p s t) (mute : ∀ x ∈ back, x.mute)
      (round : Round s t p.key (.created p.kind) (back ++ [.grant call p.key])) :
      Tidings s (.issue call self) t
  /-- An observer is added. -/
  | observe {self : RequestId} {t : State} (name : String) (hooks : Hooks Call)
      (observers : t.observers = s.observers ++ [.watcher name hooks])
      (mute : Mute s { t with observers := s.observers }) :
      Tidings s (.issue (.observe name hooks) self) t
  /-- Whoever waits for a request that has ended is called, and then its end is announced. -/
  | finish (p : Pending) (ending : Ending) : Tidings s (.finish p ending) (s.finish p ending)
  | announce (key : RequestKey) (moment : Moment) :
      Tidings s (.announce key moment) (s.push (s.tells key moment))
  | tell (observer : Nat) (key : RequestKey) (moment : Moment) :
      Tidings s (.tell observer key moment) (s.tell observer key moment)
  | grant (call : Call) (key : RequestKey) : Tidings s (.grant call key) (s.grant call key)
  /-- The manager goes, and the observers with it. -/
  | drop (gone : s.managerAlive = false) : Tidings s .leaveManager { s with
      ledger := { s.ledger with entries := [] }, observers := [] }

/-- The request that is registered is of the kind asked for. -/
theorem register?_kind {kind : Request.Kind} {timeout : Option Nat} {accepting : Bool}
    {owner : Owner} (h : s.register? kind timeout accepting owner = some (t, key))
    (ledger : t.ledger = s.ledger.insert p) : p.kind = kind := by
  have newest : ∀ q : Pending, t.ledger = s.ledger.insert q → p.kind = q.kind := by
    intro q entered
    have entries := congrArg Ledger.entries (ledger.symm.trans entered)
    exact congrArg Pending.kind (List.cons.inj (List.append_inj' entries rfl).2).1
  unfold State.register? at h
  cases hn : s.pool.next? with
  | none => rw [hn] at h; cases h
  | some drawn =>
    obtain ⟨n, pool⟩ := drawn
    rw [hn] at h
    dsimp only at h
    let q : Pending :=
      { id := ⟨n⟩, serial := s.ledger.nextSerial, kind, timeout,
        deadline := timeout.bind (deadline? s.horizon s.clock), accepting, owner }
    refine newest q ?_
    split at h
    · cases h
      rw [State.arm]
      split <;> rfl
    · cases h
      split <;> rfl

theorem create_tidings (s : State) {call : Call} {self : RequestId} {kind : Request.Kind}
    {timeout : Option Nat} {streams : Bool} {owner : Owner}
    (ho : (Task.issue call self).owner? = some owner)
    (hs : (Task.issue call self).streams = streams) :
    Tidings s (.issue call self) (s.create call self kind timeout streams owner) := by
  unfold State.create
  split
  · exact .hums rfl (by simp) (.inl (.push s (by simp [Task.mute])))
  · rename_i u key hreg
    obtain ⟨p, pool, timers, notices, rfl, serial, rfl, rfl, drawn, rfl⟩ := register?_eq hreg
    obtain rfl := register?_kind hreg rfl
    have mute : ∀ x ∈ [Task.leaveManager], x.mute := by simp [Task.mute]
    refine .enters (p := p) ⟨ho, hs.symm, serial, ⟨pool, drawn⟩, rfl, ?_⟩ mute ⟨?_, ?_, rfl, rfl⟩
    · exact ⟨notices.map .noticed, rfl, by simp [Event.calm]⟩
    · rw [State.push, List.append_assoc]
      rfl
    · exact ⟨notices.map .noticed, rfl, by simp [Event.mute]⟩

theorem operate_tidings (s : State) (self : RequestId) (operation : Operation)
    (tag : Option String) (followUp : List Call) :
    Tidings s (.issue (.operate operation tag followUp) self)
      (s.operate (.operate operation tag followUp) self operation tag followUp) := by
  have mute : ∀ t, Mute s t → Tidings s (.issue (.operate operation tag followUp) self) t :=
    fun t h => .hums rfl (by simp) (.inl h)
  unfold State.operate
  cases hm : s.heldMount? with
  | none => exact mute _ (.reply s _ _)
  | some m =>
    dsimp only
    cases hr : operation.request m.settings.info m.mounted m.files with
    | error failure => exact mute _ (.reply s _ _)
    | ok content =>
      dsimp only
      split
      · exact mute _ (.push s (by simp [Task.mute]))
      · rename_i u key hreg
        obtain ⟨p, pool, timers, notices, rfl, serial, owner, streams, drawn, rfl⟩ :=
          register?_eq hreg
        obtain kind := register?_kind hreg rfl
        -- Marking a file concerns neither agenda nor observers.
        have pushed : ∀ x : State, x.agenda = s.agenda → x.ledger = s.ledger.insert p →
            x.observers = s.observers → x.slots = s.slots →
            x.history = notices.map .noticed ++ s.history →
            Tidings s (.issue (.operate operation tag followUp) self)
              (x.push (x.tells p.key (.created content.kind) ++ [.handOver p.key content,
                .verdict p.key, .leaveMount, .grant (.operate operation tag followUp) p.key])) := by
          intro x ha hl ho hs hh
          have mute : ∀ x ∈ [Task.handOver p.key content, .verdict p.key, .leaveMount], x.mute := by
            simp [Task.mute]
          refine .enters (p := p)
            ⟨by rw [Task.owner?, owner], streams, serial, ⟨pool, drawn⟩, hl, ?_⟩ mute
            ⟨?_, ?_, ho, hs⟩
          · exact ⟨notices.map .noticed, hh, by simp [Event.calm]⟩
          · rw [State.push, ha, tells_congr ho, kind, List.append_assoc]
            rfl
          · exact ⟨notices.map .noticed, hh, by simp [Event.mute]⟩
        cases operation with
        | closeFile id => exact pushed _ rfl rfl rfl rfl rfl
        | _ => exact pushed _ rfl rfl rfl rfl rfl

theorem issue_tidings (s : State) (call : Call) (self : RequestId) :
    Tidings s (.issue call self) (s.issue call self) := by
  cases call with
  | create kind timeout streams tag onSuccess onError onPart =>
    rw [State.issue, State.withManager]
    split
    · exact create_tidings s rfl rfl
    · exact .hums rfl (by simp) (.inl (.reply s _ _))
  | operate operation tag followUp => exact operate_tidings s self operation tag followUp
  | observe name hooks =>
    rw [State.issue, State.withManager]
    split
    · exact .observe name hooks rfl (.reply s _ _)
    · exact .hums rfl (by simp) (.inl (.reply s _ _))
  | _ => exact .hums rfl (by simp) (.issue s _ self (by simp) (by simp) (by simp))

theorem tidings_perform (s : State) (task : Task) : Tidings s task (s.perform task) := by
  cases task with
  | issue call self => exact issue_tidings s call self
  | finish p ending => exact .finish p ending
  | announce key moment => exact .announce key moment
  | tell observer key moment => exact .tell observer key moment
  | grant call key => exact .grant call key
  | leaveManager =>
    show Tidings s .leaveManager s.discardManager
    unfold State.discardManager
    split
    · exact .hums rfl (by simp) (.inl (.refl s))
    · rename_i gone
      exact .drop (by simpa using gone)
  | answer call answer => exact .hums rfl (by simp) (.inl (.reply s _ _))
  | complete p ending => exact .hums rfl (by simp) (.inl (.complete s p ending))
  | pass p reply => exact .hums rfl (by simp) (.inl (.pass s p reply))
  | resume key => exact .hums rfl (by simp) (.inl (.aside rfl rfl rfl rfl rfl))
  | handOver request content => exact .hums rfl (by simp) (.inl (.handOver s _ _))
  | verdict request => exact .hums rfl (by simp) (.verdict s request)
  | cancelVerdict request => exact .hums rfl (by simp) (.inl (.cancelVerdict s request))
  | takeDown => exact .hums rfl (by simp) (.inl (.takeDown s))
  | closeFiles aborted => exact .hums rfl (by simp) (.inl (.closeFiles s aborted))
  | done request tag result followUp => exact .hums rfl (by simp) (.inl (.done s _ _ _ _))
  | poll => exact .hums rfl (by simp) (.poll s)
  | polled word => exact .hums rfl (by simp) (.inl (.polled s word))
  | elapse time => exact .hums rfl (by simp) (.inl (.elapse s time))
  | leaveMount => exact .hums rfl (by simp) (.inl (.discardMount s))

/-- What a step has to do with observers and slots. -/
theorem exists_tidings (h : s.step = some t) :
    ∃ task rest, s.agenda = task :: rest ∧ Tidings { s with agenda := rest } task t := by
  obtain ⟨task, rest, ha, rfl⟩ := exists_of_step h
  exact ⟨task, rest, ha, tidings_perform _ task⟩

/-- A request that is registered is told of before anything else happens. -/
theorem Tidings.round (h : Tidings s task t) (enters : Enters task p s t) :
    ∃ call self back, task = .issue call self ∧ (∀ x ∈ back, x.mute) ∧
      Round s t p.key (.created p.kind) (back ++ [.grant call p.key]) := by
  have next : t.ledger.nextSerial ≠ s.ledger.nextSerial := by
    rw [enters.ledger]
    exact Nat.succ_ne_self _
  cases h with
  | hums _ _ h =>
    rcases h with h | ⟨serial, -⟩
    · exact (next h.serial).elim
    · exact (next serial).elim
  | @enters call self q back _ entered mute round =>
    have entries := congrArg Ledger.entries (entered.ledger.symm.trans enters.ledger)
    obtain rfl : q = p := (List.cons.inj (List.append_inj' entries rfl).2).1
    exact ⟨call, self, back, rfl, mute, round⟩
  | observe _ _ _ mute => exact (next mute.serial).elim
  | finish | announce | tell | grant | drop => cases enters.owner

/-! ## What comes of it -/

/-- A task that is not mute, and which a task has set. -/
inductive Utters (s : State) (task : Task) (t : State) : Task → Prop
  | tellOn {p : Pending} (mem : p ∈ s.ledger.entries) (observer : Nat) (moment : Moment) :
      Utters s task t (.tell observer p.key moment)
  | tellNew {p : Pending} (enters : Enters task p s t) (observer : Nat) (moment : Moment) :
      Utters s task t (.tell observer p.key moment)
  | tell {key : RequestKey} {moment : Moment} (named : task = .announce key moment)
      (observer : Nat) : Utters s task t (.tell observer key moment)
  | announce {p : Pending} {ending : Ending} (named : task = .finish p ending) :
      Utters s task t (.announce p.key (.finished p.kind ending.outcome))
  | grant {call : Call} {self : RequestId} {p : Pending} (named : task = .issue call self)
      (enters : Enters task p s t) : Utters s task t (.grant call p.key)

theorem mute_of_finish {x : Task} {script : List Call} {ending : Ending}
    (hx : x ∈ Task.script script p.id ++ [.complete p ending]) : x.mute := by
  rcases List.mem_append.1 hx with hx | hx
  · exact mute_of_mem_script hx
  · rw [List.mem_singleton.1 hx]
    rfl

theorem finish_agenda (s : State) (p : Pending) (ending : Ending) :
    (s.finish p ending).agenda = (Task.script s.finishScript p.id ++ [.complete p ending]) ++
      .announce p.key (.finished p.kind ending.outcome) :: s.agenda := by
  show _ ++ [_, _] ++ s.agenda = _
  rw [List.append_assoc, List.append_assoc]
  rfl

/-- Telling an observer sets tasks that tell nobody, and for which the round can wait. -/
theorem tell_agenda (s : State) (i : Nat) (key : RequestKey) (moment : Moment) :
    ∃ tasks, (s.tell i key moment).agenda = tasks ++ s.agenda ∧
      ∀ x ∈ tasks, x.mute ∧ x.ofRound := by
  have script : ∀ steps self, ∀ x ∈ Task.script steps self, x.mute ∧ x.ofRound := by
    intro steps self x hx
    obtain ⟨call, -, rfl⟩ := List.mem_map.1 hx
    exact ⟨rfl, rfl⟩
  unfold State.tell
  split
  · exact ⟨[], rfl, by simp⟩
  · split
    · unfold State.cancel
      split
      · exact ⟨[], rfl, by simp⟩
      · split
        · split
          · refine ⟨_, rfl, ?_⟩
            intro x hx
            rcases List.mem_append.1 hx with hx | hx
            · exact script _ _ x hx
            · rw [List.mem_singleton.1 hx]
              exact ⟨rfl, rfl⟩
          · exact ⟨[], rfl, by simp⟩
        · exact ⟨[.cancelVerdict key], rfl, by simp [Task.mute, Task.ofRound]⟩
    · exact ⟨[], rfl, by simp⟩
  · exact ⟨[], rfl, by simp⟩
  · exact ⟨_, rfl, script _ _⟩

theorem cancelVerdict_agenda (s : State) (key : RequestKey) :
    (s.cancelVerdict key).agenda = s.agenda := by
  unfold State.cancelVerdict
  split <;> rfl

/-- Where the tasks on the agenda come from that are not mute. -/
theorem Tidings.utters {x : Task} (h : Tidings s task t) (hx : x ∈ t.agenda) :
    x ∈ s.agenda ∨ x.mute ∨ Utters s task t x := by
  have spoken : ∀ tasks : List Task, t.agenda = tasks ++ s.agenda → (∀ y ∈ tasks, y.mute) →
      x ∈ s.agenda ∨ x.mute ∨ Utters s task t x := by
    intro tasks agenda mutes
    rw [agenda] at hx
    exact (List.mem_append.1 hx).elim (fun hx => .inr (.inl (mutes x hx))) .inl
  cases h with
  | hums _ _ h =>
    rcases h with h | ⟨-, p, moment, back, mem, -, mutes, round⟩
    · obtain ⟨tasks, agenda, mutes⟩ := h.agenda
      exact spoken tasks agenda mutes
    · rw [round.agenda] at hx
      rcases List.mem_append.1 hx with hx | hx
      · obtain ⟨i, -, rfl⟩ := List.mem_map.1 hx
        exact .inr (.inr (.tellOn mem i moment))
      · exact (List.mem_append.1 hx).elim (fun hx => .inr (.inl (mutes x hx))) .inl
  | @enters call self p back _ enters mutes round =>
    rw [round.agenda] at hx
    rcases List.mem_append.1 hx with hx | hx
    · obtain ⟨i, -, rfl⟩ := List.mem_map.1 hx
      exact .inr (.inr (.tellNew enters i _))
    · rcases List.mem_append.1 hx with hx | hx
      · rcases List.mem_append.1 hx with hx | hx
        · exact .inr (.inl (mutes x hx))
        · rw [List.mem_singleton.1 hx]
          exact .inr (.inr (.grant rfl enters))
      · exact .inl hx
  | observe name hooks observers mute =>
    obtain ⟨tasks, agenda, mutes⟩ := mute.agenda
    exact spoken tasks agenda mutes
  | finish p ending =>
    rw [finish_agenda] at hx
    rcases List.mem_append.1 hx with hx | hx
    · exact .inr (.inl (mute_of_finish hx))
    · rcases List.mem_cons.1 hx with rfl | hx
      · exact .inr (.inr (.announce rfl))
      · exact .inl hx
  | announce request moment =>
    rcases List.mem_append.1 hx with hx | hx
    · obtain ⟨i, -, rfl⟩ := List.mem_map.1 hx
      exact .inr (.inr (.tell rfl i))
    · exact .inl hx
  | tell j request moment =>
    obtain ⟨tasks, agenda, mutes⟩ := tell_agenda s j request moment
    exact spoken tasks agenda fun y hy => (mutes y hy).1
  | grant | drop => exact .inl hx

/-- A slot is filled when a call that has created a request is answered. -/
theorem Tidings.slots (h : Tidings s task t) :
    t.slots = s.slots ∨ ∃ call key, task = .grant call key ∧ t.slots = s.slots ++ [key] := by
  cases h with
  | hums _ _ h =>
    rcases h with h | ⟨-, _, _, _, -, -, -, round⟩
    · exact .inl h.slots
    · exact .inl round.slots
  | enters _ _ round => exact .inl round.slots
  | observe _ _ _ mute => exact .inl mute.slots
  | finish | announce | drop => exact .inl rfl
  | grant call key => exact .inr ⟨call, key, rfl, rfl⟩
  | tell j request moment =>
    refine .inl ?_
    unfold State.tell State.cancel
    split
    · rfl
    · split
      · split
        · rfl
        · split
          · split <;> rfl
          · rfl
      · rfl
    · rfl
    · rfl

end State

end FileRelay
