import FileRelay.Proofs.Deed

/-!
# Time and the mount

Little of what the machine does has to do with time: the clock, the timers and the deadlines of
the outstanding requests stay as they are but for a few tasks, and so does whether the mount is
up.  A task is either *steady*, or has a request enter the ledger, accepts a part of a reply,
stops the timer of a request that has ended, expires a timer, takes the mount down, or drops the
manager.  This file says so once for every task.
-/

namespace FileRelay

/-- The same request, with the same time to be answered in. -/
structure Pending.Timed (p q : Pending) : Prop where
  key : q.key = p.key
  timeout : q.timeout = p.timeout
  deadline : q.deadline = p.deadline

theorem Pending.Timed.refl (p : Pending) : p.Timed p := ⟨rfl, rfl, rfl⟩

theorem Pending.Timed.trans {p q r : Pending} (h : p.Timed q) (k : q.Timed r) : p.Timed r :=
  ⟨k.key.trans h.key, k.timeout.trans h.timeout, k.deadline.trans h.deadline⟩

/-- The timers once the time of a request has started over: if it has a new deadline and timers
run, one is armed for it in place of any other. -/
def Timers.restart (timers : Timers) (run : Bool) (request : RequestKey) (deadline : Option Nat) :
    Timers :=
  match deadline with
  | some deadline => if run then timers.arm request deadline else timers
  | none => timers

/-- The time that a request is given which doing a task registers. -/
def Task.timeout? (s : State) : Task → Option Nat
  | .issue (.create _ timeout _ _ _ _ _) _ => timeout
  | .issue (.operate _ _ _) _ => s.heldMount?.bind (·.timeout)
  | _ => none

namespace State

variable {s t u : State} {task : Task} {p : Pending}

/-- Clock, timers and deadlines stay as they are, though requests may leave the ledger. -/
structure Timeless (s t : State) : Prop where
  clock : t.clock = s.clock
  horizon : t.horizon = s.horizon
  timersRun : t.timersRun = s.timersRun
  timers : t.timers = s.timers
  entries : ∀ q ∈ t.ledger.entries, ∃ p ∈ s.ledger.entries, p.Timed q

/-- So does whether the mount is up. -/
structure Steady (s t : State) : Prop extends Timeless s t where
  up : t.up = s.up

theorem Timeless.trans (h : Timeless s t) (k : Timeless t u) : Timeless s u where
  clock := k.clock.trans h.clock
  horizon := k.horizon.trans h.horizon
  timersRun := k.timersRun.trans h.timersRun
  timers := k.timers.trans h.timers
  entries := by
    intro r hr
    obtain ⟨q, hq, hqr⟩ := k.entries r hr
    obtain ⟨p, hp, hpq⟩ := h.entries q hq
    exact ⟨p, hp, hpq.trans hqr⟩

theorem Timeless.of_subset (clock : t.clock = s.clock) (horizon : t.horizon = s.horizon)
    (timersRun : t.timersRun = s.timersRun) (timers : t.timers = s.timers)
    (entries : ∀ p ∈ t.ledger.entries, p ∈ s.ledger.entries) : Timeless s t :=
  ⟨clock, horizon, timersRun, timers, fun q hq => ⟨q, entries q hq, .refl q⟩⟩

namespace Steady

theorem trans (h : Steady s t) (k : Steady t u) : Steady s u :=
  ⟨h.toTimeless.trans k.toTimeless, k.up.trans h.up⟩

/-! ## Small changes -/

/-- Ids, observers, scripts, slots, tasks and events are of no concern. -/
theorem aside (clock : t.clock = s.clock) (horizon : t.horizon = s.horizon)
    (timersRun : t.timersRun = s.timersRun) (timers : t.timers = s.timers)
    (ledger : t.ledger = s.ledger) (up : t.up = s.up) : Steady s t :=
  ⟨.of_subset clock horizon timersRun timers fun p hp => by rwa [ledger] at hp, up⟩

theorem refl (s : State) : Steady s s := aside rfl rfl rfl rfl rfl rfl

theorem push (s : State) (tasks : List Task) : Steady s (s.push tasks) :=
  aside rfl rfl rfl rfl rfl rfl

theorem emit (s : State) (event : Event) : Steady s (s.emit event) :=
  aside rfl rfl rfl rfl rfl rfl

theorem note (s : State) (notice : Notice) : Steady s (s.note notice) := emit s _

theorem reply (s : State) (call : Call) (answer : Answer) : Steady s (s.reply call answer) :=
  emit s _

/-- The stage of a request, what has arrived for it and whether it takes more are of no
concern. -/
theorem modify (s : State) (key : RequestKey) {f : Pending → Pending}
    (h : ∀ p : Pending, p.Timed (f p)) :
    Steady s { s with ledger := s.ledger.modify key f } where
  clock := rfl
  horizon := rfl
  timersRun := rfl
  timers := rfl
  entries := by
    intro q hq
    obtain ⟨p, hp, rfl⟩ := List.mem_map.1 hq
    refine ⟨p, hp, ?_⟩
    split
    · exact h p
    · exact .refl p
  up := rfl

theorem modifyMount (s : State) {f : Mount → Mount} (h : ∀ m, (f m).mounted = m.mounted) :
    Steady s (s.modifyMount f) := by
  refine aside rfl rfl rfl rfl rfl ?_
  rw [State.up, State.up, State.modifyMount, Option.any_map]
  exact congrArg (Option.any · s.mount) (funext h)

theorem modifyDirect (s : State) (f : DirectLink → DirectLink) : Steady s (s.modifyDirect f) := by
  refine modifyMount s fun m => ?_
  cases m.link <;> rfl

theorem modifyChannel (s : State) (f : ChannelLink → ChannelLink) :
    Steady s (s.modifyChannel f) := by
  refine modifyMount s fun m => ?_
  cases m.link <;> rfl

/-! ## Requests -/

theorem finishNow (s : State) (p : Pending) (ending : Ending) : Steady s (s.finishNow p ending) :=
  ⟨.of_subset rfl rfl rfl rfl fun _ hq => (List.mem_filter.1 hq).1, rfl⟩

theorem timeOut (s : State) (p : Pending) : Steady s (s.timeOut p) :=
  (note s _).trans (finishNow _ p _)

theorem drain (s : State) (after : List Task) : Steady s (s.drain after) := by
  unfold State.drain
  dsimp only
  split <;> exact ⟨.of_subset rfl rfl rfl rfl (by simp [State.push, State.note, State.emit]), rfl⟩

theorem markDelivered (s : State) (id : RequestId) : Steady s (s.markDelivered id) := by
  unfold State.markDelivered
  split
  · exact refl s
  · refine .trans ?_ (push _ _)
    exact modify s _ fun _ => ⟨rfl, rfl, rfl⟩

/-- Delivering is steady unless a part comes to a request that is there. -/
theorem deliver (s : State) (id : RequestId) (delivery : Delivery)
    (h : ∀ p reply, s.ledger.find? id = some p → delivery ≠ .part reply) :
    Steady s (s.deliver id delivery) := by
  unfold State.deliver
  cases hp : s.ledger.find? id with
  | none => cases delivery <;> exact note s _
  | some p =>
    cases delivery with
    | part reply => exact (h p reply hp rfl).elim
    | success reply => exact finishNow s p _
    | error failure => exact finishNow s p _

theorem pass (s : State) (p : Pending) (reply : Reply) : Steady s (s.pass p reply) := by
  unfold State.pass
  split
  · dsimp only
    split
    · exact ((note s _).trans (emit _ _)).trans (push _ _)
    · refine (note s _).trans (modify _ _ fun q => ?_)
      split <;> exact ⟨rfl, rfl, rfl⟩
  · exact note s _

theorem resume (s : State) (request : RequestKey) : Steady s (s.resume request) :=
  modify s request fun _ => ⟨rfl, rfl, rfl⟩

/-! ## The provider's end -/

theorem handOver (s : State) (request : RequestKey) (content : Request) :
    Steady s (s.handOver request content) := by
  unfold State.handOver
  split
  · exact refl s
  · split
    · exact ((emit s _).trans (modifyDirect _ _)).trans (push _ _)
    · exact (emit s _).trans (modifyChannel _ _)

theorem verdict (s : State) (request : RequestKey) : Steady s (s.verdict request) := by
  unfold State.verdict
  split
  · exact markDelivered s _
  · exact (note s _).trans (deliver _ _ _ (by simp))

theorem cancel (s : State) (request : RequestKey) : Steady s (s.cancel request) := by
  unfold State.cancel
  split
  · exact refl s
  · split
    · split
      · exact ((emit s _).trans (modifyDirect _ _)).trans (push _ _)
      · exact emit s _
    · exact ((emit s _).trans (modifyChannel _ _)).trans (push _ _)

theorem cancelVerdict (s : State) (request : RequestKey) : Steady s (s.cancelVerdict request) := by
  unfold State.cancelVerdict
  split
  · exact refl s
  · exact note s _

theorem tell (s : State) (observer : Nat) (request : RequestKey) (moment : Moment) :
    Steady s (s.tell observer request moment) := by
  unfold State.tell
  split
  · exact refl s
  · split
    · exact cancel s request
    · exact refl s
  · exact refl s
  · refine .trans ?_ (push _ _)
    exact aside rfl rfl rfl rfl rfl rfl

/-! ## Invoking callbacks -/

theorem registerFile? {openedBy : RequestId} {path : String} {mode : OpenMode}
    {result : Except Failure Value}
    (h : s.registerFile? openedBy path mode = some (t, result)) : Steady s t := by
  unfold State.registerFile? at h
  cases hm : s.mount? with
  | none =>
    rw [hm] at h
    cases h
    exact note s _
  | some m =>
    have hs : s.mount = some m := Option.eq_some_of_filter_eq_some hm
    rw [hm] at h
    dsimp only at h
    split at h
    · split at h
      · cases h
      · cases h
        exact aside rfl rfl rfl rfl rfl (by rw [State.up, State.up, hs]; rfl)
    · cases h
      exact note s _

theorem endClose (s : State) (id : HandleId) (success : Bool) :
    Steady s (s.endClose id success) := by
  unfold State.endClose
  cases hm : s.mount? with
  | none => exact refl s
  | some m =>
    have hs : s.mount = some m := Option.eq_some_of_filter_eq_some hm
    dsimp only
    split
    · split
      · exact refl s
      · exact aside rfl rfl rfl rfl rfl (by rw [State.up, State.up, hs]; rfl)
    · exact aside rfl rfl rfl rfl rfl (by rw [State.up, State.up, hs]; rfl)

theorem complete (s : State) (p : Pending) (ending : Ending) : Steady s (s.complete p ending) := by
  unfold State.complete
  split
  · split <;> exact (emit s _).trans (push _ _)
  · unfold State.completeOperation
    dsimp only
    split
    · split
      · exact push s _
      · rename_i registered
        exact (registerFile? registered).trans (push _ _)
    · exact (endClose s _ _).trans (push _ _)
    · split <;> exact push s _
    · exact push s _

theorem done (s : State) (request : RequestKey) (tag : Option String)
    (result : Except Failure Value) (followUp : List Call) :
    Steady s (s.done request tag result followUp) :=
  (emit s _).trans (push _ _)

/-! ## The mount -/

theorem closeFiles (s : State) (aborted : Nat) : Steady s (s.closeFiles aborted) := by
  unfold State.closeFiles
  split
  · rename_i m hm
    have cleared : Steady s { s with
        pool := m.files.releaseAll s.pool, mount := some { m with files := {} } } :=
      aside rfl rfl rfl rfl rfl (by rw [State.up, State.up, hm]; rfl)
    exact cleared.trans (note _ _)
  · exact refl s

theorem discardMount (s : State) : Steady s s.discardMount := by
  unfold State.discardMount
  split
  · exact refl s
  · exact push s _

/-! ## Replies and calls -/

theorem polled (s : State) (word : Word) : Steady s (s.polled word) :=
  (modifyChannel s _).trans (reply _ _ _)

/-- Routing a message is steady unless it brings a part to a request that is there. -/
theorem poll (s : State)
    (h : ∀ link message rest p reply, s.channel? = some link → link.inbox = message :: rest →
      s.ledger.find? message.requestId = some p → message.delivery ≠ .part reply) :
    Steady s s.poll := by
  unfold State.poll
  cases hc : s.channel? with
  | none => exact refl s
  | some link =>
    dsimp only
    split
    · rename_i message rest hi
      split
      · refine (((modifyChannel s _).trans (note _ _)).trans (push _ _)).trans (deliver _ _ _ ?_)
        intro p reply hp
        exact h link message rest p reply hc hi hp
      · exact ((modifyChannel s _).trans (note _ _)).trans (push _ _)
    · have told : Steady s
          ((s.note .providerHungUp).modifyChannel ({ · with toldOfHangUp := true })) :=
        (note s _).trans (modifyChannel _ _)
      split
      · exact push s _
      · split
        · split
          · exact told.trans (push _ _)
          · exact (told.trans (note _ _)).trans (push _ _)
        · exact told.trans (push _ _)

theorem grant (s : State) (call : Call) (request : RequestKey) :
    Steady s (s.grant call request) :=
  (aside rfl rfl rfl rfl rfl rfl : Steady s { s with slots := s.slots ++ [request] }).trans
    (reply _ _ _)

theorem withManager {serve : State} {call : Call} (h : s.managerHeld → Steady s serve) :
    Steady s (s.withManager call serve) := by
  unfold State.withManager
  split
  · exact h ‹_›
  · exact reply s _ _

theorem withMount {serve : Mount → State} {call : Call} (h : ∀ m, Steady s (serve m)) :
    Steady s (s.withMount call serve) := by
  unfold State.withMount
  split
  · exact reply s _ _
  · exact h _

theorem abort (s : State) (call : Call) (p : Option Pending) : Steady s (s.abort call p) := by
  unfold State.abort
  split
  · exact reply s _ _
  · exact (push s _).trans (finishNow _ _ _)

theorem send (s : State) (message : Incoming) : Steady s (s.send message).1 := by
  unfold State.send
  split
  · exact refl s
  · split
    · exact refl s
    · split
      · exact refl s
      · split
        · exact refl s
        · exact modifyChannel s _

theorem serveChannel (s : State) (call : Call) (link : ChannelLink) :
    Steady s (s.serveChannel call link) := by
  unfold State.serveChannel
  split
  · split
    · exact (modifyChannel s _).trans (reply _ _ _)
    · exact reply s _ _
  · exact (modifyChannel s _).trans (reply _ _ _)
  · exact (modifyChannel s _).trans (reply _ _ _)
  · split
    · exact (modifyChannel s _).trans (push _ _)
    · exact reply s _ _
  · split
    · exact (modifyChannel s _).trans (reply _ _ _)
    · exact reply s _ _
  · exact refl s

theorem servePool (s : State) (call : PoolCall) (self : RequestId) :
    Steady s (s.issue (.pool call) self) := by
  rw [State.issue]
  split
  · exact push s _
  · rename_i pool answer _
    refine .trans (t := s.setHeldPool pool) ?_ (reply _ _ _)
    rw [State.setHeldPool]
    split <;> exact aside rfl rfl rfl rfl rfl rfl

/-- Calls but those that may register a request or deliver a part are steady. -/
theorem issue (s : State) (call : Call) (self : RequestId)
    (create : ∀ kind timeout streams tag onSuccess onError onPart,
      call ≠ .create kind timeout streams tag onSuccess onError onPart)
    (operate : ∀ operation tag followUp, call ≠ .operate operation tag followUp)
    (deliver : ∀ ref delivery, call ≠ .deliver ref delivery) :
    Steady s (s.issue call self) := by
  cases call with
  | pool call => exact servePool s call self
  | create => exact (create _ _ _ _ _ _ _ rfl).elim
  | operate => exact (operate _ _ _ rfl).elim
  | deliver => exact (deliver _ _ rfl).elim
  | markDelivered ref => exact withManager fun _ => (push s _).trans (markDelivered _ _)
  | timeOut ref =>
    refine withManager fun _ => ?_
    split
    · exact reply s _ _
    · exact (push s _).trans (timeOut _ _)
  | abort ref => exact withManager fun _ => abort s _ _
  | contains ref | count | isEmpty => exact withManager fun _ => reply s _ _
  | stage ref =>
    refine withManager fun _ => ?_
    split <;> exact reply s _ _
  | shutDownRequests => exact withManager fun _ => drain s _
  | abortSlot slot =>
    rw [State.issue]
    split
    · exact reply s _ _
    · exact abort s _ _
  | slotPending slot =>
    rw [State.issue]
    split <;> exact reply s _ _
  | managerSize => exact reply s _ _
  | observe name hooks =>
    refine withManager fun _ => .trans ?_ (reply _ _ _)
    exact aside rfl rfl rfl rfl rfl rfl
  | onFinish steps =>
    refine .trans (t := { s with finishScript := steps }) ?_ (reply _ _ _)
    exact aside rfl rfl rfl rfl rfl rfl
  | releaseManager =>
    rw [State.issue]
    split
    · refine .trans ?_ (push _ _)
      exact aside rfl rfl rfl rfl rfl rfl
    · exact reply s _ _
  | shutDown => exact withMount fun _ => push s _
  | file id =>
    refine withMount fun m => ?_
    split <;> exact reply s _ _
  | info => exact withMount fun _ => reply s _ _
  | shareMount =>
    refine withMount fun _ => .trans ?_ (reply _ _ _)
    exact modifyMount s fun _ => rfl
  | releaseMount =>
    rw [State.issue]
    split
    · exact reply s _ _
    · refine .trans ?_ (push _ _)
      exact modifyMount s fun _ => rfl
  | keepManager =>
    refine withMount fun _ => .trans ?_ (reply _ _ _)
    exact aside rfl rfl rfl rfl rfl rfl
  | instruct => exact (modifyDirect s _).trans (reply _ _ _)
  | receive | stopListening | hangUp | pump | discardDriver =>
    rw [State.issue]
    split
    · exact reply s _ _
    · exact serveChannel s _ _
  | send message => exact (send s message).trans (reply _ _ _)
  | advance millis => exact push s _

end Steady

/-! ## What is not steady -/

/-- The time of an outstanding request starts over. -/
def restarted (s : State) (p : Pending) : Ledger :=
  s.ledger.modify p.key fun q =>
    { q with
      deadline := p.timeout.bind (deadline? s.horizon s.clock) <|> q.deadline
      accepting := false }

/-- What doing a task has to do with time and with the mount being up, from the state in which
it has left the agenda. -/
inductive Tick (s : State) : Task → State → Prop
  | steady {task : Task} {t : State}
      (undelivered : ∀ p reply, s.ledger.find? p.id = some p →
        task.delivery? s p.id ≠ some (.part reply))
      (h : Steady s t) : Tick s task t
  /-- A request is registered, and its time starts. -/
  | enter {task : Task} {p : Pending} {t : State} (enters : Enters task p s t)
      (timeout : p.timeout = task.timeout? s)
      (deadline : p.deadline = p.timeout.bind (deadline? s.horizon s.clock))
      (clock : t.clock = s.clock) (horizon : t.horizon = s.horizon)
      (timersRun : t.timersRun = s.timersRun)
      (timers : t.timers = s.timers.restart s.timersRun p.key p.deadline)
      (up : t.up = s.up) : Tick s task t
  /-- A part of a reply is accepted, and the time of its request starts over. -/
  | take {task : Task} {p : Pending} {reply : Reply} {t : State}
      (found : s.ledger.find? p.id = some p)
      (delivery : task.delivery? s p.id = some (.part reply)) (ledger : t.ledger = s.restarted p)
      (clock : t.clock = s.clock) (horizon : t.horizon = s.horizon)
      (timersRun : t.timersRun = s.timersRun)
      (timers : t.timers =
        s.timers.restart s.timersRun p.key (p.timeout.bind (deadline? s.horizon s.clock)))
      (up : t.up = s.up) : Tick s task t
  /-- The timer of a request that has ended is stopped. -/
  | finish (p : Pending) (ending : Ending) :
      Tick s (.finish p ending) (s.finish p ending)
  /-- The clock moves on. -/
  | elapse (time : Nat) : Tick s (.elapse time) (s.elapse time)
  /-- The mount is taken down. -/
  | takeDown (h : Timeless s s.takeDown) : Tick s .takeDown s.takeDown
  /-- The manager goes, and with it all requests, but their timers stay. -/
  | drop {t : State} (clock : t.clock = s.clock) (horizon : t.horizon = s.horizon)
      (timersRun : t.timersRun = s.timersRun) (timers : t.timers = s.timers)
      (entries : t.ledger.entries = []) (up : t.up = s.up) :
      Tick s .leaveManager t

/-- What arming a timer comes to: besides the timers, only what was logged is different. -/
theorem arm_eq (s : State) (request : RequestKey) (deadline : Nat) :
    ∃ notices : List Notice, s.arm request deadline = { s with
      timers := s.timers.restart s.timersRun request (some deadline)
      history := notices.map .noticed ++ s.history } := by
  unfold State.arm Timers.restart
  split
  · exact ⟨[], rfl⟩
  · exact ⟨[.timersMissing request.id], rfl⟩

/-- What registering a request does to clock, timers and deadlines. -/
theorem register?_timed {kind : Request.Kind} {timeout : Option Nat} {accepting : Bool}
    {owner : Owner} {key : RequestKey}
    (h : s.register? kind timeout accepting owner = some (t, key)) :
    ∃ p : Pending, p.key = key ∧ p.timeout = timeout ∧
      p.deadline = p.timeout.bind (deadline? s.horizon s.clock) ∧
      t.ledger = s.ledger.insert p ∧ t.clock = s.clock ∧ t.horizon = s.horizon ∧
      t.timersRun = s.timersRun ∧
      t.timers = s.timers.restart s.timersRun p.key p.deadline ∧ t.mount = s.mount := by
  unfold State.register? at h
  cases hn : s.pool.next? with
  | none => rw [hn] at h; cases h
  | some drawn =>
    obtain ⟨n, pool⟩ := drawn
    rw [hn] at h
    dsimp only at h
    refine ⟨{ id := ⟨n⟩, serial := s.ledger.nextSerial, kind, timeout
              deadline := timeout.bind (deadline? s.horizon s.clock), accepting, owner }, ?_⟩
    split at h
    · rename_i deadline hd
      change timeout.bind (deadline? s.horizon s.clock) = some deadline at hd
      obtain ⟨rfl, rfl⟩ := Prod.mk.inj (Option.some.inj h)
      refine ⟨rfl, rfl, rfl, ?_⟩
      obtain ⟨notices, armed⟩ := arm_eq _ _ _
      rw [armed, hd]
      exact ⟨rfl, rfl, rfl, rfl, rfl, rfl⟩
    · rename_i hd
      change timeout.bind (deadline? s.horizon s.clock) = none at hd
      obtain ⟨rfl, rfl⟩ := Prod.mk.inj (Option.some.inj h)
      refine ⟨rfl, rfl, rfl, ?_⟩
      rw [hd]
      split <;> exact ⟨rfl, rfl, rfl, rfl, rfl, rfl⟩

/-- What accepting a part does to clock, timers and deadlines. -/
theorem takePart_timed (s : State) (p : Pending) (reply : Reply) :
    (s.takePart p reply).ledger = s.restarted p ∧ (s.takePart p reply).clock = s.clock ∧
      (s.takePart p reply).horizon = s.horizon ∧
      (s.takePart p reply).timersRun = s.timersRun ∧
      (s.takePart p reply).timers =
        s.timers.restart s.timersRun p.key (p.timeout.bind (deadline? s.horizon s.clock)) ∧
      (s.takePart p reply).up = s.up := by
  unfold State.takePart restarted
  cases hd : p.timeout.bind (deadline? s.horizon s.clock) with
  | some deadline =>
    obtain ⟨notices, armed⟩ := arm_eq { s with ledger := s.ledger.modify p.key fun q =>
      { q with deadline := some deadline <|> q.deadline, accepting := false } } p.key deadline
    dsimp only
    rw [armed]
    exact ⟨rfl, rfl, rfl, rfl, rfl, rfl⟩
  | none => exact ⟨rfl, rfl, rfl, rfl, rfl, rfl⟩

/-- A part is accepted after a steady beginning. -/
theorem Tick.of_takePart {reply : Reply} (found : s.ledger.find? p.id = some p)
    (delivery : task.delivery? s p.id = some (.part reply)) (ledger : u.ledger = s.ledger)
    (h : Steady s u) : Tick s task (u.takePart p reply) := by
  obtain ⟨entries, clock, horizon, run, timers, up⟩ := takePart_timed u p reply
  refine .take found delivery ?_ (clock.trans h.clock) (horizon.trans h.horizon)
    (run.trans h.timersRun) ?_ (up.trans h.up)
  · rw [entries, restarted, restarted, ledger, h.horizon, h.clock]
  · rw [timers, h.timers, h.timersRun, h.horizon, h.clock]

/-- Registering a request gives the one that a deed says has entered. -/
theorem Tick.of_enters {v : State} {kind : Request.Kind} {timeout : Option Nat} {accepting : Bool}
    {owner : Owner} {key : RequestKey} (enters : Enters task p s t)
    (given : task.timeout? s = timeout)
    (registered : s.register? kind timeout accepting owner = some (v, key))
    (ledger : t.ledger = v.ledger) (clock : t.clock = v.clock) (horizon : t.horizon = v.horizon)
    (run : t.timersRun = v.timersRun) (timers : t.timers = v.timers) (up : t.up = v.up) :
    Tick s task t := by
  obtain ⟨q, own, timeout', deadline, entered, clock', horizon', run', timers', mount⟩ :=
    register?_timed registered
  have same : p = q := by
    have entries := congrArg Ledger.entries (enters.ledger.symm.trans (ledger.trans entered))
    exact (List.cons.inj (List.append_inj' entries rfl).2).1
  subst same
  refine .enter enters (timeout'.trans given.symm) deadline (clock.trans clock')
    (horizon.trans horizon') (run.trans run') (timers.trans timers') ?_
  rw [up, State.up, State.up, mount]

/-! ## Every task -/

theorem create_tick (s : State) {call : Call} {self : RequestId} {kind : Request.Kind}
    {timeout : Option Nat} {streams : Bool} {owner : Owner}
    (ho : (Task.issue call self).owner? = some owner)
    (hs : (Task.issue call self).streams = streams)
    (ht : (Task.issue call self).timeout? s = timeout)
    (undelivered : ∀ p reply, s.ledger.find? p.id = some p →
      (Task.issue call self).delivery? s p.id ≠ some (.part reply)) :
    Tick s (.issue call self) (s.create call self kind timeout streams owner) := by
  unfold State.create
  split
  · exact .steady undelivered (.push s _)
  · rename_i u key hreg
    obtain ⟨p, pool, timers, notices, rfl, serial, rfl, rfl, drawn, rfl⟩ := register?_eq hreg
    refine .of_enters (p := p) ⟨ho, hs.symm, serial, ⟨pool, drawn⟩, rfl, ?_⟩ ht hreg
      rfl rfl rfl rfl rfl rfl
    exact ⟨notices.map .noticed, rfl, by simp [Event.calm]⟩

theorem operate_tick (s : State) (self : RequestId) (operation : Operation)
    (tag : Option String) (followUp : List Call) :
    Tick s (.issue (.operate operation tag followUp) self)
      (s.operate (.operate operation tag followUp) self operation tag followUp) := by
  have steady : ∀ t, Steady s t → Tick s (.issue (.operate operation tag followUp) self) t :=
    fun t h => .steady (by simp [Task.delivery?]) h
  unfold State.operate
  cases hm : s.heldMount? with
  | none => exact steady _ (.reply s _ _)
  | some m =>
    dsimp only
    cases hr : operation.request m.settings.info m.mounted m.files with
    | error failure => exact steady _ (.reply s _ _)
    | ok content =>
      dsimp only
      split
      · exact steady _ (.push s _)
      · rename_i u key hreg
        obtain ⟨p, pool, timers, notices, rfl, serial, owner, streams, drawn, rfl⟩ :=
          register?_eq hreg
        have silent : s.Silent { s with history := notices.map .noticed ++ s.history } :=
          ⟨notices.map .noticed, rfl, by simp [Event.calm]⟩
        have owned : (Task.issue (.operate operation tag followUp) self).owner? = some p.owner := by
          rw [Task.owner?, owner]
        have given :
            (Task.issue (.operate operation tag followUp) self).timeout? s = m.timeout := by
          rw [Task.timeout?, hm, Option.bind_some]
        cases operation with
        | closeFile id =>
          refine .of_enters (p := p) ⟨owned, streams, serial, ⟨pool, drawn⟩, rfl, silent⟩ given
            hreg rfl rfl rfl rfl rfl ?_
          exact (Steady.modifyMount (f := fun m => { m with files := m.files.mark id true })
            { s with
              pool, ledger := s.ledger.insert p, timers
              history := notices.map .noticed ++ s.history } fun _ => rfl).up
        | _ =>
          exact .of_enters (p := p) ⟨owned, streams, serial, ⟨pool, drawn⟩, rfl, silent⟩ given
            hreg rfl rfl rfl rfl rfl rfl

theorem issue_tick (s : State) (call : Call) (self : RequestId) :
    Tick s (.issue call self) (s.issue call self) := by
  cases call with
  | create kind timeout streams tag onSuccess onError onPart =>
    rw [State.issue, State.withManager]
    split
    · exact create_tick s rfl rfl rfl (by simp [Task.delivery?])
    · exact .steady (by simp [Task.delivery?]) (.reply s _ _)
  | operate operation tag followUp => exact operate_tick s self operation tag followUp
  | deliver ref delivery =>
    by_cases part : ∃ p reply, s.managerHeld ∧ ref.resolve self = p.id ∧
        s.ledger.find? p.id = some p ∧ delivery = .part reply
    · obtain ⟨p, reply, held, hid, found, rfl⟩ := part
      rw [State.issue, State.withManager, if_pos held, hid, deliver_part (p := p)]
      · exact .of_takePart found (by rw [Task.delivery?, if_pos ⟨held, hid⟩]) rfl (.push s _)
      · exact found
    · refine .steady ?_ ?_
      · intro p reply found delivered
        rw [Task.delivery?, Option.ite_none_right_eq_some] at delivered
        exact part ⟨p, reply, delivered.1.1, delivered.1.2, found, Option.some.inj delivered.2⟩
      · rw [State.issue]
        refine Steady.withManager fun held => (Steady.push s _).trans (.deliver _ _ _ ?_)
        intro p reply found hd
        have hid : p.id = ref.resolve self := by simpa using List.find?_some found
        exact part ⟨p, reply, held, hid.symm, hid ▸ found, hd⟩
  | _ => exact .steady (by simp [Task.delivery?]) (.issue s _ self (by simp) (by simp) (by simp))

theorem poll_tick (s : State) (live : s.ledger.entries ≠ [] → s.managerAlive) :
    Tick s .poll s.poll := by
  by_cases part : ∃ link message rest p reply, s.channel? = some link ∧
      link.inbox = message :: rest ∧ message.requestId = p.id ∧
      s.ledger.find? p.id = some p ∧ message.delivery = .part reply
  · obtain ⟨link, message, rest, p, reply, hc, hi, hid, found, hd⟩ := part
    have alive := live (List.ne_nil_of_mem (List.mem_of_find?_eq_some found))
    have alive' : (s.modifyChannel ({ · with inbox := rest })).managerAlive := by
      have routed : Change s .poll s (s.modifyChannel ({ · with inbox := rest })) :=
        .modifyChannel s _
      rw [routed.stays.1]
      exact alive
    rw [State.poll, hc]
    dsimp only
    rw [hi]
    dsimp only
    rw [if_pos alive', hid, hd, deliver_part (p := p)]
    · refine .of_takePart found ?_ rfl
        (((Steady.modifyChannel s _).trans (.note _ _)).trans (.push _ _))
      obtain ⟨⟩ := link
      cases hi
      rw [Task.delivery?, hc]
      dsimp only
      rw [if_pos hid, hd]
    · exact found
  · refine .steady ?_ (.poll s ?_)
    · intro p reply found delivered
      rw [Task.delivery?] at delivered
      split at delivered
      · rename_i message _ _ _ _ _ hc
        rw [Option.ite_none_right_eq_some] at delivered
        exact part ⟨_, message, _, p, reply, hc, rfl, delivered.1, found,
          Option.some.inj delivered.2⟩
      · cases delivered
    · intro link message rest p reply hc hi found hd
      have hid : p.id = message.requestId := by simpa using List.find?_some found
      exact part ⟨link, message, rest, p, reply, hc, hi, hid.symm, hid ▸ found, hd⟩

theorem takeDown_timeless (s : State) : Timeless s s.takeDown := by
  unfold State.takeDown
  split
  · split
    · rename_i m _ _
      have down : Timeless s { s with mount := some { m with mounted := false } } :=
        .of_subset rfl rfl rfl rfl fun _ hp => hp
      exact down.trans (Steady.drain _ _).toTimeless
    · exact (Steady.refl s).toTimeless
  · exact (Steady.refl s).toTimeless

theorem tick_perform (s : State) (task : Task)
    (live : s.ledger.entries ≠ [] → (s.push [task]).managerAlive) :
    Tick s task (s.perform task) := by
  cases task with
  | issue call self => exact issue_tick s call self
  | poll =>
    refine poll_tick s fun h => ?_
    have alive := live h
    rw [managerAlive_push] at alive
    simpa [Task.leavesMount, Task.leavesManager] using alive
  | finish p ending => exact .finish p ending
  | elapse time => exact .elapse time
  | takeDown => exact .takeDown (takeDown_timeless s)
  | leaveManager =>
    show Tick s .leaveManager s.discardManager
    unfold State.discardManager
    split
    · exact .steady (by simp [Task.delivery?]) (.refl s)
    · exact .drop rfl rfl rfl rfl rfl rfl
  | answer call answer => exact .steady (by simp [Task.delivery?]) (.reply s _ _)
  | grant call request => exact .steady (by simp [Task.delivery?]) (.grant s _ _)
  | tell observer request moment => exact .steady (by simp [Task.delivery?]) (.tell s _ _ _)
  | announce request moment => exact .steady (by simp [Task.delivery?]) (.push s _)
  | complete p ending => exact .steady (by simp [Task.delivery?]) (.complete s p ending)
  | pass p reply => exact .steady (by simp [Task.delivery?]) (.pass s p reply)
  | resume key => exact .steady (by simp [Task.delivery?]) (.resume s key)
  | handOver request content => exact .steady (by simp [Task.delivery?]) (.handOver s _ _)
  | verdict request => exact .steady (by simp [Task.delivery?]) (.verdict s request)
  | cancelVerdict request => exact .steady (by simp [Task.delivery?]) (.cancelVerdict s request)
  | closeFiles aborted => exact .steady (by simp [Task.delivery?]) (.closeFiles s aborted)
  | done request tag result followUp => exact .steady (by simp [Task.delivery?]) (.done s _ _ _ _)
  | polled word => exact .steady (by simp [Task.delivery?]) (.polled s word)
  | leaveMount => exact .steady (by simp [Task.delivery?]) (.discardMount s)

/-- What a step of a run has to do with time and with the mount being up. -/
theorem Sane.exists_tick (hs : s.Sane) (h : s.step = some t) :
    ∃ task rest, s.agenda = task :: rest ∧ Tick { s with agenda := rest } task t := by
  obtain ⟨task, rest, ha, rfl⟩ := exists_of_step h
  have hb : ({ s with agenda := rest } : State).push [task] = s := by
    cases s
    cases ha
    rfl
  exact ⟨task, rest, ha, tick_perform _ task (hb.symm ▸ hs.upkeep.live)⟩

/-- The mount goes down only as it is taken down. -/
theorem Sane.takeDown_of_down (hs : s.Sane) (h : s.step = some t) (up : s.up)
    (down : t.up = false) :
    ∃ rest, s.agenda = .takeDown :: rest := by
  obtain ⟨task, rest, ha, tick⟩ := hs.exists_tick h
  have stays : t.up = ({ s with agenda := rest } : State).up →
      ∃ rest, s.agenda = .takeDown :: rest := by
    intro same
    rw [show ({ s with agenda := rest } : State).up = s.up from rfl, up, down] at same
    cases same
  cases tick with
  | steady _ h => exact stays h.up
  | enter _ _ _ _ _ _ _ same | take _ _ _ _ _ _ _ same | drop _ _ _ _ _ same => exact stays same
  | finish => exact stays rfl
  | elapse time =>
    refine stays ?_
    unfold State.elapse
    split
    · split
      · rfl
      · dsimp only
        split <;> rfl
    · rfl
  | takeDown => exact ⟨rest, ha⟩

end State

end FileRelay
