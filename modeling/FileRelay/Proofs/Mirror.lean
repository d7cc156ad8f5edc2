import FileRelay.Proofs.Change

/-!
# A mount that hears nothing

To tell what the driver does for a mount, compare it with the same mount whose driver was
discarded before anything came: this one is deaf.  It *mirrors* the other if all is the same but
what waits to be routed and how far the driver has come.  Whatever the library does apart from
routing it does to both alike, and so the mirror lasts.  Nor does it touch what waits to be routed:
both are shown here at once, task by task.
-/

namespace FileRelay

/-- Whether a task belongs to the driver. -/
def Task.ofDriver : Task → Bool
  | .poll | .polled _ => true
  | _ => false

/-- Whether a call shows whether there is a driver: sending it messages, letting it run and
discarding it. -/
def Call.ofDriver : Call → Bool
  | .send _ | .pump | .discardDriver => true
  | _ => false

/-- Whether an event shows whether there is a driver: it logs what it does, and answers to calls
show it. -/
def Event.ofDriver : Event → Bool
  | .answered call _ => call.ofDriver
  | .noticed (.routing _) | .noticed .nothingToRoute | .noticed .providerHungUp
  | .noticed (.providerGone _) => true
  | _ => false

/-- The channels without what came from the provider, their driver discarded. -/
def ChannelLink.deaf (link : ChannelLink) : ChannelLink :=
  { link with inbox := [], driver := .discarded, toldOfHangUp := false }

/-- A link whose driver, if it has one, was discarded. -/
def Link.deaf : Link → Link
  | .direct link => .direct link
  | .channel link => .channel link.deaf

/-- A mount whose driver, if it has one, was discarded. -/
def Mount.deaf (m : Mount) : Mount := { m with link := m.link.deaf }

/-- What a driver has to do with: the messages that wait to be routed, whether it runs, and whether
it has told the mount that the provider hung up. -/
structure Lane where
  inbox : List Incoming
  driver : Driver
  toldOfHangUp : Bool

/-- The lane from the provider, over channels. -/
def ChannelLink.lane (link : ChannelLink) : Lane := ⟨link.inbox, link.driver, link.toldOfHangUp⟩

/-- The lane from the provider to a mount, if it is reached over channels. -/
def Mount.lane? (m : Mount) : Option Lane :=
  match m.link with
  | .direct _ => none
  | .channel link => some link.lane

namespace State

variable {b s t u : State} {tasks : List Task}

/-- The lane from the provider to the mount, if it is reached over channels. -/
def lane? (s : State) : Option Lane := s.mount.bind Mount.lane?

/-- The tasks of the driver. -/
def rounds (s : State) : List Task := s.agenda.filter Task.ofDriver

/-- One state is another but for the driver: there is none, nothing waits to be routed, and nothing
shows that it ever did. -/
structure Mirrors (s t : State) : Prop where
  pool : t.pool = s.pool
  callerPool : t.callerPool = s.callerPool
  ledger : t.ledger = s.ledger
  timers : t.timers = s.timers
  clock : t.clock = s.clock
  horizon : t.horizon = s.horizon
  timersRun : t.timersRun = s.timersRun
  observers : t.observers = s.observers
  finishScript : t.finishScript = s.finishScript
  mount : t.mount = s.mount.map Mount.deaf
  holdsManager : t.holdsManager = s.holdsManager
  slots : t.slots = s.slots
  agenda : t.agenda = s.agenda.filter fun task => !task.ofDriver
  history : t.history.filter (fun event => !event.ofDriver) =
    s.history.filter fun event => !event.ofDriver

/-- One state mirrors another in which the driver is where it was. -/
structure InStep (b s t : State) : Prop extends Mirrors s t where
  lane : s.lane? = b.lane?
  rounds : s.rounds = b.rounds

theorem Mirrors.inStep (h : Mirrors s t) : InStep s s t := ⟨h, rfl, rfl⟩

/-! ## What both show alike -/

namespace Mirrors

theorem heldMount? (h : Mirrors s t) : t.heldMount? = s.heldMount?.map Mount.deaf := by
  rw [State.heldMount?, State.heldMount?, h.mount, Option.filter_map]
  rfl

theorem any_agenda (h : Mirrors s t) {f : Task → Bool} (other : ∀ x, f x → x.ofDriver = false) :
    t.agenda.any f = s.agenda.any f := by
  rw [h.agenda, List.any_filter]
  refine congrArg (List.any s.agenda) (funext fun x => ?_)
  cases hx : f x with
  | false => rw [Bool.and_false]
  | true => rw [other x hx]; rfl

theorem any_leavesMount (h : Mirrors s t) :
    t.agenda.any Task.leavesMount = s.agenda.any Task.leavesMount := by
  refine h.any_agenda fun x hx => ?_
  cases x with
  | leaveMount => rfl
  | _ => cases hx

theorem any_leavesManager (h : Mirrors s t) :
    t.agenda.any Task.leavesManager = s.agenda.any Task.leavesManager := by
  refine h.any_agenda fun x hx => ?_
  cases x with
  | leaveManager => rfl
  | _ => cases hx

theorem mount? (h : Mirrors s t) : t.mount? = s.mount?.map Mount.deaf := by
  rw [State.mount?, State.mount?, h.mount, Option.filter_map, h.any_leavesMount]
  rfl

theorem isSome_mount? (h : Mirrors s t) : t.mount?.isSome = s.mount?.isSome := by
  rw [h.mount?, Option.isSome_map]

theorem managerHeld (h : Mirrors s t) : t.managerHeld = s.managerHeld := by
  rw [State.managerHeld, State.managerHeld, h.holdsManager, h.heldMount?, Option.isSome_map]

theorem managerAlive (h : Mirrors s t) : t.managerAlive = s.managerAlive := by
  rw [State.managerAlive, State.managerAlive, h.holdsManager, h.isSome_mount?, h.any_leavesManager]

theorem deliverError? (h : Mirrors s t) : t.deliverError? = s.deliverError? := by
  rw [State.deliverError?, State.deliverError?, h.mount]
  cases s.mount with
  | none => rfl
  | some m =>
    obtain ⟨settings, files, mounted, holders, link⟩ := m
    cases link <;> rfl

theorem cancelError? (h : Mirrors s t) : t.cancelError? = s.cancelError? := by
  rw [State.cancelError?, State.cancelError?, h.mount]
  cases s.mount with
  | none => rfl
  | some m =>
    obtain ⟨settings, files, mounted, holders, link⟩ := m
    cases link <;> rfl

theorem channel? (h : Mirrors s t) : t.channel? = s.channel?.map ChannelLink.deaf := by
  rw [State.channel?, State.channel?, h.mount]
  cases s.mount with
  | none => rfl
  | some m =>
    obtain ⟨settings, files, mounted, holders, link⟩ := m
    cases link <;> rfl

theorem ownedIds (h : Mirrors s t) : t.ownedIds = s.ownedIds := by
  rw [State.ownedIds, State.ownedIds, h.ledger, openFiles, openFiles, h.mount]
  cases s.mount <;> rfl

theorem tells (h : Mirrors s t) (request : RequestKey) (moment : Moment) :
    t.tells request moment = s.tells request moment := by
  rw [State.tells, State.tells, h.observers]

end Mirrors

namespace InStep

/-! ## Small changes -/

theorem push (h : InStep b s t) (plain : ∀ x ∈ tasks, x.ofDriver = false) :
    InStep b (s.push tasks) (t.push tasks) :=
  { h with
    agenda := by
      have all : tasks.filter (fun task => !task.ofDriver) = tasks :=
        List.filter_eq_self.2 fun x hx => by rw [plain x hx]; rfl
      rw [State.push, State.push, List.filter_append, all, h.agenda]
    rounds := by
      have none : tasks.filter Task.ofDriver = [] :=
        List.filter_eq_nil_iff.2 fun x hx => by simp [plain x hx]
      rw [State.rounds, State.push, List.filter_append, none]
      exact h.rounds }

theorem plain_of_script {steps : List Call} {self : RequestId} :
    ∀ x ∈ Task.script steps self, x.ofDriver = false := by
  intro x hx
  obtain ⟨call, -, rfl⟩ := List.mem_map.1 hx
  rfl

theorem push_script (h : InStep b s t) (steps : List Call) (self : RequestId) :
    InStep b (s.push (Task.script steps self)) (t.push (Task.script steps self)) :=
  h.push plain_of_script

theorem plain_of_tells {request : RequestKey} {moment : Moment} :
    ∀ x ∈ s.tells request moment, x.ofDriver = false := by
  intro x hx
  obtain ⟨i, -, rfl⟩ := List.mem_map.1 hx
  rfl

theorem push_tells (h : InStep b s t) (request : RequestKey) (moment : Moment) :
    InStep b (s.push (s.tells request moment)) (t.push (t.tells request moment)) := by
  rw [h.tells]
  exact h.push plain_of_tells

theorem push_tells_append (h : InStep b s t) (request : RequestKey) (moment : Moment)
    (plain : ∀ x ∈ tasks, x.ofDriver = false) :
    InStep b (s.push (s.tells request moment ++ tasks))
      (t.push (t.tells request moment ++ tasks)) := by
  rw [h.tells]
  exact h.push fun x hx => (List.mem_append.1 hx).elim (plain_of_tells x) (plain x)

theorem push_ending (h : InStep b s t) (call : Call) (answer : Answer) :
    InStep b (s.push (ending call answer)) (t.push (ending call answer)) :=
  h.push (by simp [ending, Task.ofDriver])

theorem emit (h : InStep b s t) (event : Event) : InStep b (s.emit event) (t.emit event) :=
  { h with history := by simp only [State.emit, List.filter_cons, h.history] }

theorem note (h : InStep b s t) (notice : Notice) : InStep b (s.note notice) (t.note notice) :=
  h.emit _

theorem reply (h : InStep b s t) (call : Call) (answer : Answer) :
    InStep b (s.reply call answer) (t.reply call answer) :=
  h.emit _

theorem modifyMount (h : InStep b s t) {f : Mount → Mount} (deaf : ∀ m, f m.deaf = (f m).deaf)
    (lane : ∀ m, (f m).lane? = m.lane?) : InStep b (s.modifyMount f) (t.modifyMount f) :=
  { h with
    mount := by
      rw [State.modifyMount, State.modifyMount, h.mount, Option.map_map, Option.map_map]
      exact congrArg (Option.map · s.mount) (funext deaf)
    lane := by
      rw [← h.lane, lane?, lane?, State.modifyMount]
      cases s.mount with
      | none => rfl
      | some m => exact lane m }

theorem modifyDirect (h : InStep b s t) (f : DirectLink → DirectLink) :
    InStep b (s.modifyDirect f) (t.modifyDirect f) := by
  refine h.modifyMount (fun m => ?_) fun m => ?_
  all_goals
    obtain ⟨settings, files, mounted, holders, link⟩ := m
    cases link <;> rfl

theorem modifyChannel (h : InStep b s t) {f : ChannelLink → ChannelLink}
    (deaf : ∀ link, f link.deaf = (f link).deaf)
    (lane : ∀ link, (f link).inbox = link.inbox ∧ (f link).driver = link.driver ∧
      (f link).toldOfHangUp = link.toldOfHangUp) :
    InStep b (s.modifyChannel f) (t.modifyChannel f) := by
  refine h.modifyMount (fun m => ?_) fun m => ?_
  all_goals
    obtain ⟨settings, files, mounted, holders, link⟩ := m
    cases link with
    | direct => rfl
    | channel link => simp [Mount.deaf, Link.deaf, Mount.lane?, ChannelLink.lane, deaf, lane]

theorem setMount {m m' : Mount} (h : InStep b s t) (hm : s.mount = some m)
    (lane : m'.lane? = m.lane?) :
    InStep b { s with mount := some m' } { t with mount := some m'.deaf } :=
  { h with
    mount := rfl
    lane := by
      rw [← h.lane, lane?, lane?, hm]
      exact lane }

/-! ## The life of a request -/

theorem arm (h : InStep b s t) (request : RequestKey) (deadline : Nat) :
    InStep b (s.arm request deadline) (t.arm request deadline) := by
  unfold State.arm
  rw [h.timersRun, h.timers]
  split
  · exact { h with timersRun := rfl, timers := rfl }
  · exact h.note _

theorem register? (h : InStep b s t) (kind : Request.Kind) (timeout : Option Nat)
    (accepting : Bool) (owner : Owner) :
    Option.Rel (fun x y => InStep b x.1 y.1 ∧ y.2 = x.2) (s.register? kind timeout accepting owner)
      (t.register? kind timeout accepting owner) := by
  unfold State.register?
  rw [h.pool, h.ledger, h.horizon, h.clock]
  cases s.pool.next? with
  | none => exact .none
  | some drawn =>
    obtain ⟨n, pool⟩ := drawn
    dsimp only
    generalize hp : ({ id := ⟨n⟩, .. } : Pending) = p
    have entered : InStep b { s with pool, ledger := s.ledger.insert p }
        { t with pool, ledger := s.ledger.insert p, clock := s.clock, horizon := s.horizon } :=
      { h with pool := rfl, ledger := rfl, clock := rfl, horizon := rfl }
    have created := entered.note (.requestCreated ⟨n⟩ kind)
    split
    · refine .some ⟨?_, rfl⟩
      exact created.arm _ _
    · refine .some ⟨?_, rfl⟩
      dsimp only
      split
      · exact created.note _
      · exact created

theorem finishNow (h : InStep b s t) (p : Pending) (ending : Ending) :
    InStep b (s.finishNow p ending) (t.finishNow p ending) := by
  have pulled : InStep b (s.pull p) (t.pull p) := by
    unfold State.pull
    rw [h.ledger, h.pool]
    exact { h with ledger := rfl, pool := rfl }
  exact pulled.push (by simp [Task.ofDriver])

theorem timeOut (h : InStep b s t) (p : Pending) : InStep b (s.timeOut p) (t.timeOut p) :=
  (h.note _).finishNow _ _

theorem drain (h : InStep b s t) {after : List Task} (plain : ∀ x ∈ after, x.ofDriver = false) :
    InStep b (s.drain after) (t.drain after) := by
  unfold State.drain
  rw [h.ledger, h.pool]
  dsimp only
  generalize s.ledger.entries = entries
  have emptied : InStep b
      { s with
        ledger := { s.ledger with entries := [] }
        pool := s.pool.releaseAll (entries.map (·.id.val)) }
      { t with
        ledger := { s.ledger with entries := [] }
        pool := s.pool.releaseAll (entries.map (·.id.val)) } :=
    { h with ledger := rfl, pool := rfl }
  have finishing : ∀ x ∈ entries.map (fun p => Task.finish p .shutDown) ++ after,
      x.ofDriver = false := by
    intro x hx
    rcases List.mem_append.1 hx with hx | hx
    · obtain ⟨p, -, rfl⟩ := List.mem_map.1 hx
      rfl
    · exact plain x hx
  split
  · exact emptied.push finishing
  · exact (emptied.note _).push finishing

theorem markDelivered (h : InStep b s t) (id : RequestId) :
    InStep b (s.markDelivered id) (t.markDelivered id) := by
  unfold State.markDelivered
  rw [h.ledger]
  split
  · exact h
  · rename_i p _
    have marked : InStep b
        { s with ledger := s.ledger.modify p.key ({ · with stage := .delivered }) }
        { t with ledger := s.ledger.modify p.key ({ · with stage := .delivered }) } :=
      { h with ledger := rfl }
    exact marked.push_tells _ _

theorem takePart (h : InStep b s t) (p : Pending) (reply : Reply) :
    InStep b (s.takePart p reply) (t.takePart p reply) := by
  unfold State.takePart
  rw [h.ledger, h.horizon, h.clock]
  dsimp only
  generalize p.timeout.bind (deadline? s.horizon s.clock) = deadline
  generalize s.ledger.modify p.key _ = ledger
  have busy : InStep b { s with ledger }
      { t with ledger, clock := s.clock, horizon := s.horizon } :=
    { h with ledger := rfl, clock := rfl, horizon := rfl }
  cases deadline with
  | none => exact busy.push_tells_append _ _ (by simp [Task.ofDriver])
  | some deadline => exact (busy.arm _ _).push_tells_append _ _ (by simp [Task.ofDriver])

theorem deliver (h : InStep b s t) (id : RequestId) (delivery : Delivery) :
    InStep b (s.deliver id delivery) (t.deliver id delivery) := by
  unfold State.deliver
  rw [h.ledger]
  split
  · exact h.note _
  · exact h.note _
  · exact h.note _
  · exact h.takePart _ _
  · exact h.finishNow _ _
  · exact h.finishNow _ _

theorem finish (h : InStep b s t) (p : Pending) (ending : Ending) :
    InStep b (s.finish p ending) (t.finish p ending) := by
  unfold State.finish
  rw [h.timers]
  have stopped : InStep b { s with timers := s.timers.stop p.key }
      { t with timers := s.timers.stop p.key } := { h with timers := rfl }
  have noted := stopped.note (.requestFinished p.id p.kind ending.outcome)
  dsimp only
  rw [noted.finishScript]
  refine push { noted with finishScript := rfl } fun x hx => ?_
  rcases List.mem_append.1 hx with hx | hx
  · exact plain_of_script x hx
  · simp only [List.mem_cons, List.not_mem_nil, or_false] at hx
    rcases hx with rfl | rfl <;> rfl

theorem pass (h : InStep b s t) (p : Pending) (reply : Reply) :
    InStep b (s.pass p reply) (t.pass p reply) := by
  unfold State.pass
  split
  · dsimp only
    split
    · refine ((h.note _).emit _).push fun x hx => ?_
      rcases List.mem_append.1 hx with hx | hx
      · exact plain_of_script x hx
      · rw [List.mem_singleton.1 hx]
        rfl
    · have taken := h.note (.partTaken p.id)
      rw [taken.ledger]
      exact { taken with ledger := rfl }
  · exact h.note _

theorem resume (h : InStep b s t) (request : RequestKey) :
    InStep b (s.resume request) (t.resume request) := by
  unfold State.resume
  rw [h.ledger]
  exact { h with ledger := rfl }

/-! ## The provider and the observers -/

theorem handOver (h : InStep b s t) (request : RequestKey) (content : Request) :
    InStep b (s.handOver request content) (t.handOver request content) := by
  unfold State.handOver
  rw [h.mount]
  cases s.mount with
  | none => exact h
  | some m =>
    obtain ⟨settings, files, mounted, holders, link⟩ := m
    cases link with
    | direct link => exact ((h.emit _).modifyDirect _).push_script _ _
    | channel link =>
      refine (h.emit _).modifyChannel (fun link => ?_) fun link => ?_
      · cases listening : link.listening <;> simp [ChannelLink.deaf, listening]
      · split <;> exact ⟨rfl, rfl, rfl⟩

theorem verdict (h : InStep b s t) (request : RequestKey) :
    InStep b (s.verdict request) (t.verdict request) := by
  unfold State.verdict
  rw [h.deliverError?]
  split
  · exact h.markDelivered _
  · exact (h.note _).deliver _ _

theorem cancel (h : InStep b s t) (request : RequestKey) :
    InStep b (s.cancel request) (t.cancel request) := by
  unfold State.cancel
  rw [h.mount]
  cases s.mount with
  | none => exact h
  | some m =>
    obtain ⟨settings, files, mounted, holders, link⟩ := m
    cases link with
    | direct link =>
      dsimp only [Option.map_some, Mount.deaf, Link.deaf]
      split
      · refine ((h.emit _).modifyDirect _).push fun x hx => ?_
        rcases List.mem_append.1 hx with hx | hx
        · exact plain_of_script x hx
        · rw [List.mem_singleton.1 hx]
          rfl
      · exact h.emit _
    | channel link =>
      refine ((h.emit _).modifyChannel (fun link => ?_) fun link => ?_).push
        (by simp [Task.ofDriver])
      · cases listening : link.listening <;> simp [ChannelLink.deaf, listening]
      · split <;> exact ⟨rfl, rfl, rfl⟩

theorem cancelVerdict (h : InStep b s t) (request : RequestKey) :
    InStep b (s.cancelVerdict request) (t.cancelVerdict request) := by
  unfold State.cancelVerdict
  rw [h.cancelError?]
  split
  · exact h
  · exact h.note _

theorem tell (h : InStep b s t) (observer : Nat) (request : RequestKey) (moment : Moment) :
    InStep b (s.tell observer request moment) (t.tell observer request moment) := by
  unfold State.tell
  rw [h.observers]
  cases s.observers[observer]? with
  | none => exact h
  | some listener =>
    cases listener with
    | canceller =>
      cases moment with
      | finished =>
        dsimp only
        split
        · exact h.cancel _
        · exact h
      | _ => exact h
    | watcher name hooks =>
      have told := h.emit (.observed name request moment)
      dsimp only
      rw [told.observers]
      refine push_script ?_ _ _
      exact { told with observers := rfl }

/-! ## The mount -/

theorem registerFile? (h : InStep b s t) (openedBy : RequestId) (path : String) (mode : OpenMode) :
    Option.Rel (fun x y => InStep b x.1 y.1 ∧ y.2 = x.2) (s.registerFile? openedBy path mode)
      (t.registerFile? openedBy path mode) := by
  unfold State.registerFile?
  rw [h.mount?, h.pool]
  cases hm : s.mount? with
  | none => exact .some ⟨h.note _, rfl⟩
  | some m =>
    dsimp only [Option.map_some, Mount.deaf]
    split
    · split
      · exact .none
      · rename_i files _ _
        have filed : InStep b { s with mount := some { m with files } } _ :=
          h.setMount (Option.mem_filter_iff.1 hm).1 rfl
        exact .some ⟨{ filed with pool := rfl }, rfl⟩
    · exact .some ⟨h.note _, rfl⟩

theorem endClose (h : InStep b s t) (id : HandleId) (success : Bool) :
    InStep b (s.endClose id success) (t.endClose id success) := by
  unfold State.endClose
  rw [h.mount?]
  cases hm : s.mount? with
  | none => exact h
  | some m =>
    have mount := (Option.mem_filter_iff.1 hm).1
    dsimp only [Option.map_some, Mount.deaf]
    split
    · rw [h.pool]
      split
      · exact h
      · rename_i files _ _
        have filed : InStep b { s with mount := some { m with files } } _ := h.setMount mount rfl
        exact { filed with pool := rfl }
    · exact h.setMount mount rfl

theorem completeOperation (h : InStep b s t) (p : Pending) (ending : Ending)
    (expects : Expectation) (tag : Option String) (followUp : List Call) :
    InStep b (s.completeOperation p ending expects tag followUp)
      (t.completeOperation p ending expects tag followUp) := by
  unfold State.completeOperation
  dsimp only
  split
  · rename_i path mode _ _
    have both := h.registerFile? p.id path mode
    generalize s.registerFile? p.id path mode = a at both ⊢
    generalize t.registerFile? p.id path mode = c at both ⊢
    cases both with
    | none => exact h.push (by simp [Task.ofDriver])
    | some same =>
      obtain ⟨same, result⟩ := same
      dsimp only
      rw [result]
      exact same.push (by simp [Task.ofDriver])
  · exact (h.endClose _ _).push (by simp [Task.ofDriver])
  · rw [h.isSome_mount?]
    split <;> exact h.push (by simp [Task.ofDriver])
  · exact h.push (by simp [Task.ofDriver])

theorem complete (h : InStep b s t) (p : Pending) (ending : Ending) :
    InStep b (s.complete p ending) (t.complete p ending) := by
  unfold State.complete
  split
  · split
    · exact (h.emit _).push_script _ _
    · exact (h.emit _).push_script _ _
  · exact h.completeOperation _ _ _ _ _

theorem done (h : InStep b s t) (request : RequestKey) (tag : Option String)
    (result : Except Failure Value) (followUp : List Call) :
    InStep b (s.done request tag result followUp) (t.done request tag result followUp) :=
  (h.emit _).push_script _ _

theorem takeDown (h : InStep b s t) : InStep b s.takeDown t.takeDown := by
  unfold State.takeDown
  rw [h.mount]
  cases hm : s.mount with
  | none => exact h
  | some m =>
    dsimp only [Option.map_some, Mount.deaf]
    split
    · have down : InStep b { s with mount := some { m with mounted := false } } _ :=
        h.setMount hm rfl
      rw [h.ledger]
      refine drain ?_ (by simp [Task.ofDriver])
      exact { down with ledger := rfl }
    · exact h

theorem closeFiles (h : InStep b s t) (aborted : Nat) :
    InStep b (s.closeFiles aborted) (t.closeFiles aborted) := by
  unfold State.closeFiles
  rw [h.mount, h.pool]
  cases hm : s.mount with
  | none => exact h
  | some m =>
    have emptied : InStep b { s with mount := some { m with files := {} } } _ := h.setMount hm rfl
    refine note ?_ _
    exact { emptied with pool := rfl }

theorem discardManager (h : InStep b s t) : InStep b s.discardManager t.discardManager := by
  unfold State.discardManager
  rw [h.managerAlive, h.ledger]
  split
  · exact h
  · exact { h with ledger := rfl, observers := rfl }

theorem discardMount (h : InStep b s t) : InStep b s.discardMount t.discardMount := by
  unfold State.discardMount
  rw [h.isSome_mount?]
  split
  · exact h
  · exact h.push (by simp [Task.ofDriver])

/-! ## Time -/

theorem elapse (h : InStep b s t) (time : Nat) : InStep b (s.elapse time) (t.elapse time) := by
  unfold State.elapse
  rw [h.timersRun, h.timers, h.clock, h.ledger]
  split
  · split
    · exact { h with ledger := rfl, timers := rfl, clock := rfl, timersRun := rfl }
    · rename_i timer _
      have expired : InStep b
          { s with timers := s.timers.stop timer.request, clock := max s.clock timer.deadline }
          { t with
            ledger := s.ledger
            timers := s.timers.stop timer.request
            clock := max s.clock timer.deadline
            timersRun := s.timersRun } :=
        { h with ledger := rfl, timers := rfl, clock := rfl, timersRun := rfl }
      dsimp only
      split
      · exact expired.push (by simp [Task.ofDriver])
      · exact (expired.push (by simp [Task.ofDriver])).timeOut _
  · exact h

/-! ## Calls -/

theorem grant (h : InStep b s t) (call : Call) (request : RequestKey) :
    InStep b (s.grant call request) (t.grant call request) := by
  unfold State.grant
  rw [h.slots]
  have stored : InStep b { s with slots := s.slots ++ [request] }
      { t with slots := s.slots ++ [request] } := { h with slots := rfl }
  exact stored.reply _ _

theorem withManager (h : InStep b s t) (call : Call) {serve serve' : State}
    (hs : InStep b serve serve') :
    InStep b (s.withManager call serve) (t.withManager call serve') := by
  unfold State.withManager
  rw [h.managerHeld]
  split
  · exact hs
  · exact h.reply _ _

theorem withMount (h : InStep b s t) (call : Call) {serve serve' : Mount → State}
    (hs : ∀ m, s.heldMount? = some m → InStep b (serve m) (serve' m.deaf)) :
    InStep b (s.withMount call serve) (t.withMount call serve') := by
  unfold State.withMount
  rw [h.heldMount?]
  cases hm : s.heldMount? with
  | none => exact h.reply _ _
  | some m => exact hs m hm

theorem abort (h : InStep b s t) (call : Call) (p : Option Pending) :
    InStep b (s.abort call p) (t.abort call p) := by
  unfold State.abort
  split
  · exact h.reply _ _
  · exact (h.push_ending _ _).finishNow _ _

theorem create (h : InStep b s t) (call : Call) (self : RequestId) (kind : Request.Kind)
    (timeout : Option Nat) (streams : Bool) (owner : Owner) :
    InStep b (s.create call self kind timeout streams owner)
      (t.create call self kind timeout streams owner) := by
  unfold State.create
  have both := h.register? kind timeout streams owner
  generalize s.register? kind timeout streams owner = a at both ⊢
  generalize t.register? kind timeout streams owner = c at both ⊢
  cases both with
  | none => exact h.push (by simp [Task.ofDriver])
  | some same =>
    obtain ⟨same, key⟩ := same
    dsimp only
    rw [key]
    exact same.push_tells_append _ _ (by simp [Task.ofDriver])

theorem operate (h : InStep b s t) (call : Call) (self : RequestId) (operation : Operation)
    (tag : Option String) (followUp : List Call) :
    InStep b (s.operate call self operation tag followUp)
      (t.operate call self operation tag followUp) := by
  unfold State.operate
  rw [h.heldMount?]
  cases s.heldMount? with
  | none => exact h.reply _ _
  | some m =>
    dsimp only [Option.map_some, Mount.deaf, Mount.timeout]
    split
    · exact h.reply _ _
    · rename_i content _
      have both := h.register? content.kind (m.settings.timeLimit.map TimeSpan.length)
        operation.expectation.streams (.operation operation.expectation tag followUp)
      generalize State.register? s _ _ _ _ = a at both ⊢
      generalize State.register? t _ _ _ _ = c at both ⊢
      cases both with
      | none => exact h.push (by simp [Task.ofDriver])
      | some same =>
        obtain ⟨same, key⟩ := same
        dsimp only
        rw [key]
        refine push_tells_append ?_ _ _ (by simp [Task.ofDriver])
        split
        · exact same.modifyMount (fun _ => rfl) fun _ => rfl
        · exact same

theorem servePool (h : InStep b s t) (call : PoolCall) (self : RequestId) :
    InStep b (s.issue (.pool call) self) (t.issue (.pool call) self) := by
  rw [State.issue, State.issue, State.heldPool, State.heldPool, h.callerPool, h.pool]
  split
  · exact h.push (by simp [Task.ofDriver])
  · refine reply ?_ _ _
    unfold State.setHeldPool
    rw [h.callerPool]
    split
    · exact { h with callerPool := rfl }
    · exact { h with pool := rfl, callerPool := rfl }

/-- Calls at the provider's end of the channel that have nothing to do with the driver. -/
theorem serveChannel {call : Call} {link : ChannelLink} (h : InStep b s t)
    (other : call.ofDriver = false) :
    InStep b (s.serveChannel call link) (t.serveChannel call link.deaf) := by
  cases call with
  | receive =>
    show InStep b (if link.listening then _ else _) (if link.listening then _ else _)
    split
    · refine reply (modifyChannel h ?_ ?_) _ _
      · exact fun _ => rfl
      · exact fun _ => ⟨rfl, rfl, rfl⟩
    · exact h.reply _ _
  | stopListening | hangUp =>
    refine reply (modifyChannel h ?_ ?_) _ _
    · exact fun _ => rfl
    · exact fun _ => ⟨rfl, rfl, rfl⟩
  | pump | discardDriver => cases other
  | _ => exact h

theorem issue {call : Call} (h : InStep b s t) (self : RequestId) (other : call.ofDriver = false) :
    InStep b (s.issue call self) (t.issue call self) := by
  have find : ∀ id, t.ledger.find? id = s.ledger.find? id := fun id => by rw [h.ledger]
  cases call with
  | pool call => exact h.servePool call self
  | create => exact h.withManager _ (h.create _ _ _ _ _ _)
  | markDelivered ref =>
    rw [State.issue, State.issue, find]
    exact h.withManager _ ((h.push_ending _ _).markDelivered _)
  | deliver ref delivery =>
    rw [State.issue, State.issue, find]
    exact h.withManager _ ((h.push_ending _ _).deliver _ _)
  | timeOut ref =>
    rw [State.issue, State.issue, find]
    refine h.withManager _ ?_
    split
    · exact h.reply _ _
    · exact (h.push_ending _ _).timeOut _
  | abort ref =>
    rw [State.issue, State.issue, find]
    exact h.withManager _ (h.abort _ _)
  | contains ref =>
    rw [State.issue, State.issue, find]
    exact h.withManager _ (h.reply _ _)
  | stage ref =>
    rw [State.issue, State.issue, find]
    refine h.withManager _ ?_
    split <;> exact h.reply _ _
  | count =>
    rw [State.issue, State.issue, h.ledger]
    exact h.withManager _ (h.reply _ _)
  | isEmpty =>
    rw [State.issue, State.issue, h.ledger]
    exact h.withManager _ (h.reply _ _)
  | shutDownRequests =>
    rw [State.issue, State.issue, h.ledger]
    exact h.withManager _ (h.drain (by simp [ending, Task.ofDriver]))
  | abortSlot slot =>
    rw [State.issue, State.issue, h.slots, h.ledger]
    split
    · exact h.reply _ _
    · exact h.abort _ _
  | slotPending slot =>
    rw [State.issue, State.issue, h.slots, h.ledger]
    split <;> exact h.reply _ _
  | managerSize =>
    rw [State.issue, State.issue, h.managerAlive, h.ledger]
    exact h.reply _ _
  | observe name hooks =>
    rw [State.issue, State.issue, h.observers]
    refine h.withManager _ (reply ?_ _ _)
    exact { h with observers := rfl }
  | onFinish steps =>
    refine reply ?_ _ _
    exact { h with finishScript := rfl }
  | releaseManager =>
    rw [State.issue, State.issue, h.holdsManager]
    split
    · refine push_ending ?_ _ _
      exact { h with holdsManager := rfl }
    · exact h.reply _ _
  | operate => exact h.operate _ _ _ _ _
  | shutDown => exact h.withMount _ fun _ _ => h.push (by simp [Task.ofDriver])
  | file id =>
    refine h.withMount _ fun m _ => ?_
    dsimp only [Mount.deaf]
    split <;> exact h.reply _ _
  | info => exact h.withMount _ fun _ _ => h.reply _ _
  | shareMount =>
    refine h.withMount _ fun _ _ => reply (modifyMount h ?_ ?_) _ _
    · exact fun _ => rfl
    · exact fun _ => rfl
  | releaseMount =>
    rw [State.issue, State.issue, h.heldMount?]
    cases s.heldMount? with
    | none => exact h.reply _ _
    | some m =>
      refine push (modifyMount h (fun _ => rfl) fun _ => rfl) ?_
      simp [Task.ofDriver]
  | keepManager =>
    refine h.withMount _ fun _ _ => reply ?_ _ _
    exact { h with holdsManager := rfl }
  | instruct => exact (h.modifyDirect _).reply _ _
  | send | pump | discardDriver => cases other
  | receive | stopListening | hangUp =>
    rw [State.issue, State.issue, h.channel?]
    cases s.channel? with
    | none => exact h.reply _ _
    | some link => exact h.serveChannel rfl
  | advance millis =>
    rw [State.issue, State.issue, h.clock]
    exact h.push (by simp [Task.ofDriver])

/-- Whatever task is done that is not the driver's, nor a call that shows whether there is one, the
mirror lasts, and the driver is where it was. -/
theorem perform {task : Task} (h : InStep b s t) (other : task.ofDriver = false)
    (calls : ∀ call self, task = .issue call self → call.ofDriver = false) :
    InStep b (s.perform task) (t.perform task) := by
  cases task with
  | issue call self => exact h.issue self (calls call self rfl)
  | answer => exact h.reply _ _
  | grant => exact h.grant _ _
  | tell => exact h.tell _ _ _
  | announce => exact h.push_tells _ _
  | finish => exact h.finish _ _
  | complete => exact h.complete _ _
  | pass => exact h.pass _ _
  | resume => exact h.resume _
  | handOver => exact h.handOver _ _
  | verdict => exact h.verdict _
  | cancelVerdict => exact h.cancelVerdict _
  | takeDown => exact h.takeDown
  | closeFiles => exact h.closeFiles _
  | done => exact h.done _ _ _ _
  | poll | polled => cases other
  | elapse => exact h.elapse _
  | leaveManager => exact h.discardManager
  | leaveMount => exact h.discardMount

end InStep

end State

end FileRelay
