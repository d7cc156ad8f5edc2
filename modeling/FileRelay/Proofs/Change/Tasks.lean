import FileRelay.Proofs.Change

/-!
# What each task changes

One lemma for each thing that the machine does, from the small ones up to the tasks.
-/

namespace FileRelay

/-- A file that an operation uses is open, and not being closed. -/
theorem OpenFiles.exists_of_use {α : Type} {table : OpenFiles} {id : HandleId}
    {next : OpenFile → Except Failure α} {result : α}
    (h : (table.use id >>= next) = .ok result) :
    ∃ file ∈ table.files, file.id = id ∧ file.closing = false ∧ next file = .ok result := by
  cases usable : table.usable? id with
  | none =>
    rw [OpenFiles.use, usable] at h
    cases h
  | some file =>
    rw [OpenFiles.use, usable] at h
    rw [OpenFiles.usable?, Option.filter_eq_some_iff] at usable
    obtain ⟨found, usable⟩ := usable
    exact ⟨file, List.mem_of_find?_eq_some found, by simpa using List.find?_some found,
      by simpa using usable, h⟩

/-- Only a mount that is up accepts an operation. -/
theorem Operation.mounted_of_request {operation : Operation} {info : MountInfo} {mounted : Bool}
    {table : OpenFiles} {content : Request}
    (h : operation.request info mounted table = .ok content) : mounted := by
  have ok : ∀ r, Operation.request.admitted info mounted r = .ok content → mounted := by
    intro r hr
    cases mounted with
    | true => rfl
    | false => cases hr
  cases operation with
  | readDirectory path | openFile path =>
    rw [Operation.request] at h
    split at h
    · cases h
    · exact ok _ h
  | closeFile id =>
    cases mounted with
    | true => rfl
    | false => cases h
  | readData id | writeData id =>
    obtain ⟨file, -, -, -, h⟩ := OpenFiles.exists_of_use h
    split at h
    · cases h
    · exact ok _ h
  | _ => exact ok _ h

namespace State

variable {before : State} {task : Task} {s t : State}

theorem push_append (s : State) (first second : List Task) :
    s.push (first ++ second) = (s.push second).push first := by
  rw [push, push, push, List.append_assoc]

theorem push_cons (s : State) (task : Task) (tasks : List Task) :
    s.push (task :: tasks) = (s.push tasks).push [task] := rfl

namespace Change

/-! ## Requests -/

theorem finishNow {p : Pending} {ending : Ending} (mem : p ∈ s.ledger.entries)
    (old : p ∈ before.ledger.entries) (ends : task.ending? before p = some ending) :
    Change before task s (s.finishNow p ending) :=
  .move (.pull mem old ends)

theorem timeOut {p : Pending} (mem : p ∈ s.ledger.entries) (old : p ∈ before.ledger.entries)
    (ends : task.ending? before p = some .timedOut) : Change before task s (s.timeOut p) :=
  (note s _).trans (finishNow mem old ends)

theorem takePart (s : State) (p : Pending) (reply : Reply) :
    Change before task s (s.takePart p reply) := by
  unfold State.takePart
  have accepted : Change before task s _ :=
    modify s p.key (f := fun q =>
      { q with
        deadline := p.timeout.bind (deadline? s.horizon s.clock) <|> q.deadline
        accepting := false })
      fun q => ⟨rfl, rfl, rfl, rfl, .refl _⟩
  dsimp only
  rw [push_append]
  refine .trans (.trans ?_ (push_single _ rfl)) (push_tells _ _ _ _)
  split
  · exact accepted.trans (arm _ _ _)
  · exact accepted

theorem markDelivered (s : State) (id : RequestId) : Change before task s (s.markDelivered id) := by
  unfold State.markDelivered
  split
  · exact refl s
  · refine .trans ?_ (push_tells _ _ _ _)
    exact modify s _ fun q => ⟨rfl, rfl, rfl, rfl, .refl _⟩

/-- A delivery ends the request of its id only. -/
theorem deliver (id : RequestId) (delivery : Delivery)
    (ends : ∀ p ending, s.ledger.find? id = some p → delivery.ending? = some ending →
      p ∈ before.ledger.entries ∧ task.ending? before p = some ending) :
    Change before task s (s.deliver id delivery) := by
  unfold State.deliver
  cases h : s.ledger.find? id with
  | none => cases delivery <;> exact note s _
  | some p =>
    have mem : p ∈ s.ledger.entries := List.mem_of_find?_eq_some h
    cases delivery with
    | part reply => exact takePart s p reply
    | success reply =>
      obtain ⟨old, hp⟩ := ends p _ h rfl
      exact finishNow mem old hp
    | error failure =>
      obtain ⟨old, hp⟩ := ends p _ h rfl
      exact finishNow mem old hp

/-- Notices concern nobody's result. -/
theorem notes (s : State) (notices : List Notice) :
    Change before task s { s with history := notices.map .noticed ++ s.history } := by
  induction notices with
  | nil => exact refl s
  | cons notice rest ih => exact ih.trans (note _ notice)

end Change

/-- What registering a request comes to: besides the pool and the ledger, only the timers
and what was logged are different. -/
theorem register?_eq {kind : Request.Kind} {timeout : Option Nat} {accepting : Bool}
    {owner : Owner} {key : RequestKey}
    (h : s.register? kind timeout accepting owner = some (t, key)) :
    ∃ (p : Pending) (pool : IdPool) (timers : Timers) (notices : List Notice),
      p.key = key ∧ p.serial = s.ledger.nextSerial ∧ p.owner = owner ∧ p.accepting = accepting ∧
      s.pool.next? = some (p.id.val, pool) ∧
      t = { s with
        pool, ledger := s.ledger.insert p, timers
        history := notices.map .noticed ++ s.history } := by
  unfold State.register? at h
  cases hn : s.pool.next? with
  | none => rw [hn] at h; cases h
  | some drawn =>
    obtain ⟨n, pool⟩ := drawn
    rw [hn] at h
    dsimp only at h
    refine ⟨{ id := ⟨n⟩, serial := s.ledger.nextSerial, kind, timeout
              deadline := timeout.bind (deadline? s.horizon s.clock), accepting, owner }, pool, ?_⟩
    split at h
    · cases h
      unfold State.arm
      split
      · exact ⟨_, [.requestCreated ⟨n⟩ kind], rfl, rfl, rfl, rfl, rfl, rfl⟩
      · exact ⟨_, [.timersMissing ⟨n⟩, .requestCreated ⟨n⟩ kind], rfl, rfl, rfl, rfl, rfl, rfl⟩
    · cases h
      split
      · exact ⟨_, [.timeoutTooLong ⟨n⟩, .requestCreated ⟨n⟩ kind], rfl, rfl, rfl, rfl, rfl, rfl⟩
      · exact ⟨_, [.requestCreated ⟨n⟩ kind], rfl, rfl, rfl, rfl, rfl, rfl⟩

/-- What registering a request does: it enters the ledger as the newest, under the id drawn
from the pool and the next serial number, and has its timer armed. -/
theorem register?_spec {kind : Request.Kind} {timeout : Option Nat} {accepting : Bool}
    {owner : Owner} {key : RequestKey}
    (h : s.register? kind timeout accepting owner = some (t, key)) :
    ∃ p : Pending, p.key = key ∧ p.serial = s.ledger.nextSerial ∧ p.owner = owner ∧
      s.pool.next? = some (p.id.val, t.pool) ∧ t.ledger = s.ledger.insert p ∧
      t.mount = s.mount ∧ t.agenda = s.agenda ∧
      ∀ before task, Change before task { s with pool := t.pool, ledger := t.ledger } t := by
  obtain ⟨p, pool, timers, notices, own, serial, owner, -, drawn, rfl⟩ := register?_eq h
  exact ⟨p, own, serial, owner, drawn, rfl, rfl, rfl, fun _ _ =>
    .trans (.notes _ notices) (.aside rfl rfl rfl rfl rfl rfl rfl)⟩

/-- A request waits for an id only if none is free. -/
theorem next?_of_register? {kind : Request.Kind} {timeout : Option Nat} {accepting : Bool}
    {owner : Owner} (h : s.register? kind timeout accepting owner = none) :
    s.pool.next? = none := by
  unfold State.register? at h
  cases hn : s.pool.next? with
  | none => rfl
  | some drawn =>
    rw [hn] at h
    dsimp only at h
    split at h <;> cases h

namespace Change

/-- Registering a request, by a call that is to have one registered. -/
theorem register? {kind : Request.Kind} {timeout : Option Nat} {accepting : Bool} {owner : Owner}
    {key : RequestKey} (held : s.managerHeld) (ho : task.owner? = some owner)
    (up : owner.isOperation → s.up)
    (h : s.register? kind timeout accepting owner = some (t, key)) : Change before task s t := by
  obtain ⟨p, -, serial, rfl, drawn, ledger, -, -, rest⟩ := register?_spec h
  have entered : Change before task s { s with pool := t.pool, ledger := t.ledger } :=
    ledger ▸ move (.register held ho up drawn serial)
  exact entered.trans (rest before task)

/-- All requests are shut down, possibly with the mount. -/
theorem drain {mount : Option Mount} {after : List Task}
    (old : ∀ p ∈ s.ledger.entries,
      p ∈ before.ledger.entries ∧ task.ending? before p = some .shutDown)
    (down : mount = s.mount ∨ mount = s.mount.map fun m => { m with mounted := false })
    (pushed : Change before task s (s.push after)) :
    Change before task s (({ s with mount } : State).drain after) := by
  have drained := pushed.trans (.move (.drain (s := s.push after) old down))
  unfold State.drain
  dsimp only
  rw [State.push, List.append_assoc]
  split
  · exact drained
  · exact drained.trans (note _ _)

theorem pass (s : State) (p : Pending) (reply : Reply) : Change before task s (s.pass p reply) := by
  unfold State.pass
  split
  · dsimp only
    split
    · rename_i tag onSuccess onError onPart owner
      rw [push_append]
      have told : Change before task s _ :=
        (note s (.partTaken p.id)).trans (emit _ (rfl : (Event.part p.key tag reply).paid? = none))
      exact (told.trans (push_single _ rfl)).trans (push_script _ _ _)
    · refine (note s (.partTaken p.id)).trans (modify _ p.key ?_)
      intro q
      obtain ⟨id, serial, kind, stage, timeout, deadline, accepting, owner⟩ := q
      cases owner with
      | client => exact ⟨rfl, rfl, rfl, rfl, .refl _⟩
      | operation expects tag followUp =>
        exact ⟨rfl, rfl, rfl, rfl, .operation expects [reply] tag followUp⟩
  · exact note s _

theorem resume (s : State) (request : RequestKey) : Change before task s (s.resume request) :=
  modify s request fun _ => ⟨rfl, rfl, rfl, rfl, .refl _⟩

/-! ## The provider's end -/

theorem handOver (s : State) (request : RequestKey) (content : Request) :
    Change before task s (s.handOver request content) := by
  unfold State.handOver
  split
  · exact refl s
  · split
    · exact (emit s rfl).trans ((modifyDirect _ _).trans (push_script _ _ _))
    · exact (emit s rfl).trans (modifyChannel _ _)

/-- A refusal to take a request ends the request that has its id by then. -/
theorem verdict (s : State) (request : RequestKey)
    (ends : ∀ p failure, p ∈ s.ledger.entries → p.id = request.id → s.deliverError? = some failure →
      p ∈ before.ledger.entries ∧ task.ending? before p = some (.rejected failure)) :
    Change before task s (s.verdict request) := by
  unfold State.verdict
  cases hd : s.deliverError? with
  | none => exact markDelivered s _
  | some failure =>
    refine (note s _).trans (deliver _ _ ?_)
    intro p ending hp he
    cases he
    exact ends p failure (List.mem_of_find?_eq_some hp) (by simpa using List.find?_some hp) hd

theorem cancel (s : State) (request : RequestKey) : Change before task s (s.cancel request) := by
  unfold State.cancel
  split
  · exact refl s
  · split
    · split
      · rw [push_append]
        refine .trans (.trans ?_ (push_single _ rfl)) (push_script _ _ _)
        exact (emit s rfl).trans (modifyDirect _ _)
      · exact emit s rfl
    · exact (emit s rfl).trans ((modifyChannel _ _).trans (push_single _ rfl))

theorem cancelVerdict (s : State) (request : RequestKey) :
    Change before task s (s.cancelVerdict request) := by
  unfold State.cancelVerdict
  split
  · exact refl s
  · exact note s _

theorem tell (s : State) (observer : Nat) (request : RequestKey) (moment : Moment) :
    Change before task s (s.tell observer request moment) := by
  unfold State.tell
  split
  · exact refl s
  · split
    · exact cancel s request
    · exact refl s
  · exact refl s
  · refine .trans ?_ (push_script _ _ _)
    exact (@emit before task s (.observed _ request _) rfl).trans
      (aside rfl rfl rfl rfl rfl rfl rfl)

/-! ## The mount -/

theorem takeDown (s : State)
    (old : ∀ p ∈ s.ledger.entries,
      p ∈ before.ledger.entries ∧ task.ending? before p = some .shutDown) :
    Change before task s s.takeDown := by
  unfold State.takeDown
  cases hm : s.mount with
  | none => exact refl s
  | some m =>
    dsimp only
    split
    · exact drain old (.inr (by rw [hm]; rfl)) (push_single s rfl)
    · exact refl s

theorem closeFiles (s : State) (aborted : Nat) : Change before task s (s.closeFiles aborted) := by
  unfold State.closeFiles
  cases hm : s.mount with
  | none => exact refl s
  | some m => exact (move (.clear hm)).trans (note _ _)

theorem endClose (s : State) (id : HandleId) (success : Bool) :
    Change before task s (s.endClose id success) := by
  unfold State.endClose
  cases hm : s.mount? with
  | none => exact refl s
  | some m =>
    have hs : s.mount = some m := Option.eq_some_of_filter_eq_some hm
    dsimp only
    split
    · split
      · exact refl s
      · rename_i hr
        exact move (.remove hs hr)
    · exact move (.mark id false hs)

/-- A file is registered on a mount that is there and up, and only then. -/
theorem registerFile? {openedBy : RequestId} {path : String} {mode : OpenMode}
    {result : Except Failure Value}
    (h : s.registerFile? openedBy path mode = some (t, result)) :
    Change before task s t ∧ ((∃ id, result = .ok (.file id)) ∨ result = .error .shutdown) := by
  unfold State.registerFile? at h
  cases hm : s.mount? with
  | none =>
    rw [hm] at h
    cases h
    exact ⟨note s _, .inr rfl⟩
  | some m =>
    have hs : s.mount = some m := Option.eq_some_of_filter_eq_some hm
    rw [hm] at h
    dsimp only at h
    split at h
    · split at h
      · cases h
      · rename_i added
        cases h
        exact ⟨move (.add hs added), .inl ⟨_, rfl⟩⟩
    · cases h
      exact ⟨note s _, .inr rfl⟩

end Change

/-! ## Finishing a request -/

theorem effect_finish (s : State) (p : Pending) (ending : Ending) :
    Effect before (.finish p ending) s (s.finish p ending) := by
  unfold State.finish
  rw [push_append, push_cons]
  have stopped : Change before (.finish p ending) s { s with timers := s.timers.stop p.key } :=
    .aside rfl rfl rfl rfl rfl rfl rfl
  have noted := stopped.trans (.note _ (.requestFinished p.id p.kind ending.outcome))
  have ready := noted.trans (.setFinishScript _ [])
  exact .settle (ready.trans (.push_single _ rfl)) (.finish _ p ending) (.push_script _ _ _)

theorem effect_done (s : State) (request : RequestKey) (tag : Option String)
    (result : Except Failure Value) (followUp : List Call) :
    Effect before (.done request tag result followUp) s (s.done request tag result followUp) :=
  .settle (.refl s) (.done s request tag result followUp) (.push_script _ _ _)

theorem effect_completeOperation (s : State) {p : Pending} {ending : Ending}
    {expects : Expectation} {tag : Option String} {followUp : List Call}
    (owner : p.owner = .operation expects tag followUp) :
    Effect before (.complete p ending) s
      (s.completeOperation p ending expects tag followUp) := by
  unfold State.completeOperation
  dsimp only
  split
  case h_1 path mode value hr =>
    split
    · exact .settle (.refl s) (.wait s p ending) (.refl _)
    · rename_i u result hreg
      obtain ⟨registered, hresult⟩ := Change.registerFile? hreg
      refine .settle registered (.operation _ owner ?_) (.refl _)
      simp only [Expectation.Gives, hr]
      exact hresult
  case h_2 id => exact .settle (.endClose s _ _) (.operation _ owner rfl) (.refl _)
  case h_3 value hr =>
    have gives : Expectation.unmounting.Gives ending (.ok value) := hr.symm
    split
    · rename_i inUse
      show Effect before _ s ((s.push [_]).push [.takeDown, .leaveMount])
      refine .settle (.refl s) (.operation s owner gives) (.push _ ?_ ?_ ?_)
      · simp [Task.owed?]
      · simp [Task.leavesManager]
      · exact fun _ => inUse_push inUse _
    · exact .settle (.refl s) (.operation s owner gives) (.refl _)
  case h_4 _ hfile _ =>
    refine .settle (.refl s) (.operation s owner ?_) (.refl _)
    unfold Expectation.Gives
    split
    case h_1 hr => exact (hfile _ _ _ rfl hr).elim
    case h_2 => rfl

theorem effect_complete (s : State) (p : Pending) (ending : Ending) :
    Effect before (.complete p ending) s (s.complete p ending) := by
  unfold State.complete
  split
  · rename_i tag onSuccess onError onPart owner
    have paid : Pass (.complete p ending) s (s.emit (ending.callback p.key tag)) := .client s owner
    unfold Ending.callback at paid
    split
    · rename_i hr
      rw [hr] at paid
      exact .settle (.refl s) paid (.push_script _ _ _)
    · rename_i hr
      rw [hr] at paid
      exact .settle (.refl s) paid (.push_script _ _ _)
  · rename_i owner
    exact effect_completeOperation s owner

/-! ## Time and replies -/

namespace Change

/-- A timer that expires ends its own request. -/
theorem elapse (s : State) (time : Nat) (live : s.ledger.entries ≠ [] → s.managerAlive) :
    Change (s.push [.elapse time]) (.elapse time) s (s.elapse time) := by
  unfold State.elapse
  split
  · split
    · exact aside rfl rfl rfl rfl rfl rfl rfl
    · rename_i timer hdue
      have moved : Change (s.push [.elapse time]) (.elapse time) s
          { s with timers := s.timers.stop timer.request, clock := max s.clock timer.deadline } :=
        aside rfl rfl rfl rfl rfl rfl rfl
      dsimp only
      split
      · exact moved.trans (push_single _ rfl)
      · rename_i p hp
        have mem : p ∈ s.ledger.entries := List.mem_of_find?_eq_some hp
        have hk : p.key = timer.request := by simpa using List.find?_some hp
        refine (moved.trans (push _ ?_ ?_ ?_)).trans (timeOut mem mem ?_)
        · simp [Task.owed?]
        · intro _
          exact live (List.ne_nil_of_mem mem)
        · simp [Task.leavesMount]
        · have hd : (s.push [.elapse time]).timers.due? time = some timer := hdue
          rw [Task.ending?, hd, Option.map_some, hk, if_pos rfl]
  · exact refl s

/-- A message ends the request of its id. -/
theorem poll (s : State) : Change (s.push [.poll]) .poll s s.poll := by
  unfold State.poll
  cases hc : s.channel? with
  | none => exact refl s
  | some link =>
    dsimp only
    split
    · rename_i message rest hi
      split
      · rename_i alive
        have routed : Change (s.push [.poll]) .poll s
            ((s.modifyChannel ({ · with inbox := rest })).note (.routing message.requestId)) :=
          (modifyChannel s _).trans (note _ _)
        refine (routed.trans (push _ ?_ (fun _ => alive) ?_)).trans
          (deliver _ _ fun p ending hp he => ?_)
        · simp [Task.owed?]
        · simp [Task.leavesMount]
        · have mem : p ∈ s.ledger.entries := List.mem_of_find?_eq_some hp
          have hid : p.id = message.requestId := by simpa using List.find?_some hp
          have hc' : (s.push [.poll]).channel? = some link := hc
          obtain ⟨outbox, listening, inbox, capacity, sending, driver, told⟩ := link
          cases hi
          exact ⟨mem, by rw [Task.ending?, hc']; simp only [if_pos hid.symm, he]⟩
      · exact (modifyChannel s _).trans ((note _ _).trans (push_single _ rfl))
    · have told : Change (s.push [.poll]) .poll s
          ((s.note .providerHungUp).modifyChannel ({ · with toldOfHangUp := true })) :=
        (note s _).trans (modifyChannel _ _)
      split
      · exact push_single s rfl
      · split
        · rename_i m hm
          split
          · exact told.trans (push_single _ rfl)
          · refine (told.trans (note _ _)).trans (push _ ?_ ?_ ?_)
            · simp [Task.owed?]
            · simp [Task.leavesManager]
            · intro _
              exact Option.isSome_of_eq_some hm
        · exact told.trans (push_single _ rfl)

theorem polled (s : State) (word : Word) : Change before task s (s.polled word) :=
  (modifyChannel s _).trans (reply _ _ _)

theorem grant (s : State) (call : Call) (request : RequestKey) :
    Change before task s (s.grant call request) := by
  have stored : Change before task s { s with slots := s.slots ++ [request] } :=
    aside rfl rfl rfl rfl rfl rfl rfl
  exact stored.trans (reply _ _ _)

/-! ## Calls -/

theorem withManager {serve : State} {call : Call}
    (h : s.managerHeld → Change before task s serve) :
    Change before task s (s.withManager call serve) := by
  unfold State.withManager
  split
  · exact h ‹_›
  · exact reply s _ _

theorem withMount {call : Call} {serve : Mount → State}
    (h : ∀ m, s.heldMount? = some m → Change before task s (serve m)) :
    Change before task s (s.withMount call serve) := by
  unfold State.withMount
  split
  · exact reply s _ _
  · exact h _ ‹_›

/-- A call on the manager keeps it in use until it is answered. -/
theorem push_ending (s : State) (alive : s.managerAlive) (call : Call) (answer : Answer) :
    Change before task s (s.push (ending call answer)) := by
  refine push s ?_ (fun _ => alive) ?_
  · simp [State.ending, Task.owed?]
  · simp [State.ending, Task.leavesMount]

/-- A call may be put back, to be made once more. -/
theorem again (s : State) (call : Call) (self : RequestId) :
    Change before task s (s.push [.issue call self]) :=
  push_single s rfl

theorem abort (s : State) (call : Call) {p : Option Pending}
    (h : ∀ q, p = some q → s.managerAlive ∧ q ∈ s.ledger.entries ∧ q ∈ before.ledger.entries ∧
      task.ending? before q = some .aborted) :
    Change before task s (s.abort call p) := by
  unfold State.abort
  cases p with
  | none => exact reply s _ _
  | some q =>
    obtain ⟨alive, mem, old, ends⟩ := h q rfl
    exact (push_ending s alive _ _).trans (finishNow mem old ends)

theorem create {call : Call} {self : RequestId} {kind : Request.Kind} {timeout : Option Nat}
    {streams : Bool} {owner : Owner} (held : s.managerHeld) (ho : task.owner? = some owner)
    (up : owner.isOperation → s.up) :
    Change before task s (s.create call self kind timeout streams owner) := by
  unfold State.create
  split
  · exact again s call self
  · rename_i u key hreg
    have registered : Change before task s u := register? held ho up hreg
    have alive : u.managerAlive := registered.stays.1 ▸ managerAlive_of_held held
    rw [push_append]
    refine registered.trans (.trans (push _ ?_ (fun _ => alive) ?_) (push_tells _ _ _ _))
    · simp [Task.owed?]
    · simp [Task.leavesMount]

/-- A file to be closed is marked. -/
theorem markClosing {m : Mount} (operation : Operation) (hm : s.mount = some m) :
    Change before task s (match operation with
      | .closeFile id => s.modifyMount fun m => { m with files := m.files.mark id true }
      | _ => s) := by
  cases operation with
  | closeFile id =>
    dsimp only
    rw [State.modifyMount, hm]
    exact move (.mark id true hm)
  | _ => exact refl s

/-- An operation that is accepted registers its request, and marks the file it closes. -/
theorem operate {call : Call} {self : RequestId} {operation : Operation} {tag : Option String}
    {followUp : List Call}
    (ho : task.owner? = some (.operation operation.expectation tag followUp)) :
    Change before task s (s.operate call self operation tag followUp) := by
  unfold State.operate
  cases hm : s.heldMount? with
  | none => exact reply s _ _
  | some m =>
    cases hr : operation.request m.settings.info m.mounted m.files with
    | error failure => simp only [hr]; exact reply s _ _
    | ok content =>
      have hs := mount_of_heldMount? hm
      have up : s.up := by
        rw [State.up, hs]
        exact Operation.mounted_of_request hr
      simp only [hr]
      split
      · exact again s call self
      · rename_i u key hreg
        have registered : Change before task s u :=
          register? (managerHeld_of_heldMount? hm) ho (fun _ => up) hreg
        obtain ⟨p, -, -, -, -, -, hu, -, -⟩ := register?_spec hreg
        have marked := @markClosing before task u m operation (hu.trans hs)
        have started := registered.trans marked
        have inUse := started.stays.2 ▸ inUse_of_heldMount? hm
        rw [push_append]
        refine started.trans (.trans (push _ ?_ ?_ (fun _ => inUse)) (push_tells _ _ _ _))
        · simp [Task.owed?]
        · simp [Task.leavesManager]

/-- The other end of the channel, and the driver. -/
theorem serveChannel (s : State) (call : Call) (link : ChannelLink) :
    Change before task s (s.serveChannel call link) := by
  unfold State.serveChannel
  split
  · split
    · exact (modifyChannel s _).trans (reply _ _ _)
    · exact reply s _ _
  · exact (modifyChannel s _).trans (reply _ _ _)
  · exact (modifyChannel s _).trans (reply _ _ _)
  · split
    · exact (modifyChannel s _).trans (push_single _ rfl)
    · exact reply s _ _
  · split
    · exact (modifyChannel s _).trans (reply _ _ _)
    · exact reply s _ _
  · exact refl s

theorem send (s : State) (message : Incoming) : Change before task s (s.send message).1 := by
  unfold State.send
  split
  · exact refl s
  · split
    · exact refl s
    · split
      · exact refl s
      · split
        · exact refl s
        · exact modifyChannel s _

/-- A call on the pool that its caller holds, which may be the manager's. -/
theorem servePool (s : State) (call : PoolCall) (self : RequestId)
    (fair : ∀ ref, s.callerPool = none → call = .release ref →
      (ref.resolve self).val ∉ s.ownedIds) :
    Change before (.issue (.pool call) self) s (s.issue (.pool call) self) := by
  rw [State.issue]
  split
  · exact again s _ self
  · rename_i pool answer served
    refine .trans ?_ (reply _ _ _)
    rw [State.setHeldPool]
    rw [State.heldPool] at served
    split
    · rename_i own
      exact aside rfl rfl rfl rfl own.symm rfl rfl
    · rename_i shared
      have hc : s.callerPool = none := by simpa using shared
      rw [hc] at served
      exact move (.share rfl hc served fun ref => fair ref hc)

/-- Giving up the manager leaves it in use until the call is answered. -/
theorem releaseManager (s : State) {self : RequestId} :
    Change before task s (s.issue .releaseManager self) := by
  rw [State.issue]
  split
  · rename_i holds
    have alive : s.managerAlive := by rw [managerAlive, holds, Bool.true_or, Bool.true_or]
    exact .move (.keep {
      agenda := ⟨State.ending .releaseManager (.flag true), rfl, by simp [State.ending, Task.owed?]⟩
      history := ⟨[], rfl, by simp⟩
      entries := ⟨id, Pending.Continues.refl, by rw [List.map_id]; rfl⟩
      nextSerial := rfl
      pool := rfl
      shared := rfl
      face := rfl
      held := fun _ => by rw [managerHeld, holds, Bool.true_or]
      used := .inl }
      (by rw [alive, managerAlive_push, State.ending]; simp [Task.leavesManager])
      (inUse_congr rfl rfl))
  · exact reply s _ _

/-- The holders of a mount may change, and more tasks come to use it, as long as somebody
holds or uses it still. -/
theorem changeHolders {m : Mount} {f : Mount → Mount} {tasks : List Task}
    (hm : s.heldMount? = some m) (face : (f m).face = m.face)
    (quiet : ∀ x ∈ tasks, x.owed? = none)
    (stays : 0 < (f m).holders ∨ tasks.any Task.leavesMount) :
    Change before task s ((s.modifyMount f).push tasks) := by
  have hs := mount_of_heldMount? hm
  have inUse : ((s.modifyMount f).push tasks).mount?.isSome := by
    rw [isSome_mount?]
    simp only [State.push, State.modifyMount, hs, Option.map_some, Option.any_some, List.any_append,
      Bool.or_eq_true, decide_eq_true_eq]
    exact stays.imp_right .inl
  exact .move (.keep {
    agenda := ⟨tasks, rfl, quiet⟩
    history := ⟨[], rfl, by simp⟩
    entries := ⟨id, Pending.Continues.refl, by rw [List.map_id]; rfl⟩
    nextSerial := rfl
    pool := rfl
    shared := rfl
    face := by
      show (s.mount.map f).map Mount.face = s.mount.map Mount.face
      rw [hs, Option.map_some, Option.map_some, face, Option.map_some]
    held := fun _ => managerHeld_of_heldMount? hm
    used := fun _ => .inr (inUse_of_heldMount? hm) }
    (by rw [managerAlive_of_inUse inUse, managerAlive_of_inUse (inUse_of_heldMount? hm)])
    (by rw [inUse, inUse_of_heldMount? hm]))

theorem shareMount (s : State) {self : RequestId} :
    Change before task s (s.issue .shareMount self) := by
  rw [State.issue]
  apply withMount
  intro m hm
  have shared : Change before task s
      ((s.modifyMount fun m => { m with holders := m.holders + 1 }).push []) :=
    changeHolders hm rfl (by simp) (.inl (Nat.succ_pos _))
  exact shared.trans (reply _ _ _)

theorem releaseMount (s : State) {self : RequestId} :
    Change before task s (s.issue .releaseMount self) := by
  rw [State.issue]
  split
  · exact reply s _ _
  · rename_i m hm
    exact changeHolders hm rfl (by simp [Task.owed?]) (.inr rfl)

/-- Whoever can get hold of the mount may come to hold its manager too. -/
theorem keepManager (s : State) {self : RequestId} :
    Change before task s (s.issue .keepManager self) := by
  rw [State.issue]
  refine withMount fun m hm => .trans ?_ (reply _ _ _)
  have alive := managerAlive_of_inUse (inUse_of_heldMount? hm)
  exact .move (.keep
    (.of_eq rfl rfl rfl rfl rfl rfl fun _ => managerHeld_of_heldMount? hm)
    (by rw [alive]; simp [managerAlive]) (inUse_congr rfl rfl))

/-- Each call, made on a state in which some request being outstanding keeps the manager
alive. -/
theorem issue (s : State) (call : Call) (self : RequestId)
    (live : s.ledger.entries ≠ [] → s.managerAlive)
    (fair : ¬ (s.push [.issue call self]).Trespasses) :
    Change (s.push [.issue call self]) (.issue call self) s (s.issue call self) := by
  have mem_of_find : ∀ {id : RequestId} {p : Pending}, s.ledger.find? id = some p →
      p ∈ s.ledger.entries ∧ id = p.id := by
    intro id p h
    have hid : p.id = id := by simpa using List.find?_some h
    exact ⟨List.mem_of_find?_eq_some h, hid.symm⟩
  cases call with
  | pool call =>
    refine servePool s call self fun ref hc hr hmem => fair ⟨hc, ref, self, s.agenda, ?_, hmem⟩
    rw [hr]
    rfl
  | create kind timeout streams tag onSuccess onError onPart =>
    rw [State.issue]
    exact withManager fun held => create held rfl (fun h => absurd h (by simp [Owner.isOperation]))
  | markDelivered ref =>
    rw [State.issue]
    apply withManager
    intro held
    exact (push_ending s (managerAlive_of_held held) _ _).trans (markDelivered _ _)
  | deliver ref delivery =>
    rw [State.issue]
    apply withManager
    intro held
    have pushed := @push_ending (s.push [.issue (.deliver ref delivery) self])
      (.issue (.deliver ref delivery) self) s (managerAlive_of_held held) (.deliver ref delivery)
      (.flag (s.ledger.find? (ref.resolve self)).isSome)
    refine pushed.trans (deliver _ _ ?_)
    intro p ending hp he
    obtain ⟨mem, hid⟩ := mem_of_find hp
    exact ⟨mem, by rw [Task.ending?, if_pos hid, he]⟩
  | timeOut ref =>
    rw [State.issue]
    apply withManager
    intro held
    split
    · exact reply s _ _
    · rename_i p hp
      obtain ⟨mem, hid⟩ := mem_of_find hp
      refine (push_ending s (managerAlive_of_held held) _ _).trans (timeOut mem mem ?_)
      rw [Task.ending?, if_pos hid]
  | abort ref =>
    rw [State.issue]
    refine withManager fun held => abort s _ ?_
    intro p hp
    obtain ⟨mem, hid⟩ := mem_of_find hp
    exact ⟨managerAlive_of_held held, mem, mem, by rw [Task.ending?, if_pos hid]⟩
  | contains ref | count | isEmpty =>
    rw [State.issue]
    exact withManager fun _ => reply s _ _
  | stage ref =>
    rw [State.issue]
    apply withManager
    intro _
    split <;> exact reply s _ _
  | shutDownRequests =>
    rw [State.issue]
    apply withManager
    intro held
    exact drain (fun p hp => ⟨hp, rfl⟩) (.inl rfl) (push_ending s (managerAlive_of_held held) _ _)
  | abortSlot slot =>
    rw [State.issue]
    split
    · exact reply s _ _
    · rename_i key hslot
      refine abort s _ ?_
      intro p hp
      have mem : p ∈ s.ledger.entries := List.mem_of_find?_eq_some hp
      have hk : p.key = key := by simpa using List.find?_some hp
      refine ⟨live (List.ne_nil_of_mem mem), mem, mem, ?_⟩
      have hs : (s.push [.issue (.abortSlot slot) self]).slots[slot]? = some key := hslot
      rw [Task.ending?, hs, hk, if_pos rfl]
  | slotPending slot =>
    rw [State.issue]
    split <;> exact reply s _ _
  | managerSize => exact reply s _ _
  | observe name hooks =>
    rw [State.issue]
    refine withManager fun _ => .trans ?_ (reply _ _ _)
    exact aside rfl rfl rfl rfl rfl rfl rfl
  | onFinish steps =>
    rw [State.issue]
    exact (setFinishScript s steps).trans (reply _ _ _)
  | releaseManager => exact releaseManager s
  | operate operation tag followUp => exact operate rfl
  | shutDown =>
    rw [State.issue]
    refine withMount fun m hm => push s ?_ ?_ fun _ => inUse_of_heldMount? hm
    · simp [Task.owed?]
    · simp [Task.leavesManager]
  | file id =>
    rw [State.issue]
    apply withMount
    intro m _
    split <;> exact reply s _ _
  | info =>
    rw [State.issue]
    exact withMount fun m _ => reply s _ _
  | shareMount => exact shareMount s
  | releaseMount => exact releaseMount s
  | keepManager => exact keepManager s
  | instruct deliverError cancelError onDeliver onCancel =>
    exact (modifyDirect s _).trans (reply _ _ _)
  | receive | stopListening | hangUp | pump | discardDriver =>
    rw [State.issue]
    split
    · exact reply s _ _
    · exact serveChannel s _ _
  | send message => exact (send s message).trans (reply _ _ _)
  | advance millis =>
    exact (push_single s rfl).trans (push_single _ rfl)

end Change

/-! ## A step -/

theorem effect_leaveManager (s : State) : Effect before .leaveManager s s.discardManager := by
  unfold State.discardManager
  split
  · exact .keepManager ‹_›
  · rename_i gone
    exact .dropManager (by simpa using gone)

theorem effect_leaveMount (s : State) : Effect before .leaveMount s s.discardMount := by
  unfold State.discardMount
  split
  · exact .keepMount ‹_›
  · rename_i gone
    exact .dropMount (by simpa using gone)

/-- What doing a task leads to. -/
theorem effect_perform (s : State) (task : Task)
    (live : s.ledger.entries ≠ [] → (s.push [task]).managerAlive)
    (fair : ¬ (s.push [task]).Trespasses) : Effect (s.push [task]) task s (s.perform task) := by
  have alive : task.leaves = false → s.ledger.entries ≠ [] → s.managerAlive := by
    intro hl hs
    have h := live hs
    rw [Task.leaves, Bool.or_eq_false_iff] at hl
    rw [managerAlive_push] at h
    simpa [hl.1, hl.2] using h
  cases task with
  | issue call self => exact .change rfl rfl (.issue s call self (alive rfl) fair)
  | answer call answer => exact .change rfl rfl (.reply s _ _)
  | grant call request => exact .change rfl rfl (.grant s _ _)
  | tell observer request moment => exact .change rfl rfl (.tell s _ _ _)
  | announce request moment =>
    exact .change rfl rfl (.push_tells s s request moment)
  | finish p ending => exact effect_finish s p ending
  | complete p ending => exact effect_complete s p ending
  | pass p reply => exact .change rfl rfl (.pass s _ _)
  | resume request => exact .change rfl rfl (.resume s _)
  | handOver request content => exact .change rfl rfl (.handOver s _ _)
  | verdict request =>
    refine .change rfl rfl (.verdict s request fun p failure mem hid hd => ⟨mem, ?_⟩)
    have hd' : (s.push [.verdict request]).deliverError? = some failure := hd
    rw [Task.ending?, if_pos hid.symm, hd', Option.map_some]
  | cancelVerdict request => exact .change rfl rfl (.cancelVerdict s _)
  | takeDown => exact .change rfl rfl (.takeDown s fun p mem => ⟨mem, rfl⟩)
  | closeFiles aborted => exact .change rfl rfl (.closeFiles s _)
  | done request tag result followUp => exact effect_done s request tag result followUp
  | poll => exact .change rfl rfl (.poll s)
  | polled word => exact .change rfl rfl (.polled s word)
  | elapse time => exact .change rfl rfl (.elapse s time (alive rfl))
  | leaveManager => exact effect_leaveManager s
  | leaveMount => exact effect_leaveMount s

/-- What a step does. -/
theorem exists_effect_of_step {b t : State}
    (live : b.ledger.entries ≠ [] → b.managerAlive)
    (fair : ¬ b.Trespasses) (h : b.step = some t) :
    ∃ task rest, b.agenda = task :: rest ∧ Effect b task { b with agenda := rest } t := by
  obtain ⟨task, rest, ha, rfl⟩ := exists_of_step h
  have hb : ({ b with agenda := rest } : State).push [task] = b := by
    cases b
    cases ha
    rfl
  refine ⟨task, rest, ha, ?_⟩
  have e := effect_perform { b with agenda := rest } task (hb.symm ▸ live) (hb.symm ▸ fair)
  rwa [hb] at e

end State

end FileRelay
