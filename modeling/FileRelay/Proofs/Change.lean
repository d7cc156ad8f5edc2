import FileRelay.Proofs.Run

/-!
# What a step changes

Of all that a step does, little concerns who is still owed a result, which ids are in
use and which files are open.  This file says what: a *change* is a sequence of *moves*,
and a move either leaves all of that undisturbed, or is one of a few: a request enters or
leaves the ledger, a file enters or leaves the table, the ledger or the table is emptied,
the id pool serves its other holder.  Whatever survives each move survives every step.

A task *owes* a request its callback if doing it is what brings the callback about; an
event *pays* it if it is the callback's invocation.
-/

namespace FileRelay

/-- The request whose callback doing a task brings about. -/
def Task.owed? : Task → Option RequestKey
  | .finish p _ | .complete p _ => some p.key
  | .done request .. => some request
  | _ => none

/-- Whether a task ends the use of the manager or of the mount by a call under way. -/
def Task.leaves (task : Task) : Bool := task.leavesManager || task.leavesMount

/-- Whether a task neither owes a callback nor keeps anything in use. -/
def Task.plain (task : Task) : Bool := task.owed?.isNone && !task.leaves

/-- The request whose callback was invoked. -/
def Event.paid? : Event → Option RequestKey
  | .succeeded request .. | .failed request .. | .done request .. => some request
  | _ => none

/-- How a delivery ends its request, if it does. -/
def Delivery.ending? : Delivery → Option Ending
  | .part _ => none
  | .success reply => some (.completed reply)
  | .error failure => some (.rejected failure)

/-- How doing a task ends an outstanding request, if it does: as the reply or the error
delivered to it, as aborted, as timed out or as shut down.  A message of the provider and
a refusal to take a request concern the request of their id, an expiring timer and an
abort by slot one request only. -/
def Task.ending? (s : State) (p : Pending) : Task → Option Ending
  | .issue (.deliver ref delivery) self =>
    if ref.resolve self = p.id then delivery.ending? else none
  | .issue (.abort ref) self => if ref.resolve self = p.id then some .aborted else none
  | .issue (.abortSlot slot) _ => if s.slots[slot]? = some p.key then some .aborted else none
  | .issue (.timeOut ref) self => if ref.resolve self = p.id then some .timedOut else none
  | .issue .shutDownRequests _ | .takeDown => some .shutDown
  | .elapse time =>
    if (s.timers.due? time).map (·.request) = some p.key then some .timedOut else none
  | .poll =>
    match s.channel? with
    | some { inbox := message :: _, .. } =>
      if message.requestId = p.id then message.delivery.ending? else none
    | _ => none
  | .verdict request =>
    if request.id = p.id then s.deliverError?.map .rejected else none
  | _ => none

/-- Who will wait for the request that doing a task registers. -/
def Task.owner? : Task → Option Owner
  | .issue (.create _ _ _ tag onSuccess onError onPart) _ =>
    some (.client tag onSuccess onError onPart)
  | .issue (.operate operation tag followUp) _ =>
    some (.operation operation.expectation tag followUp)
  | _ => none

/-- Whether it is the caller of an operation who waits. -/
def Owner.isOperation : Owner → Bool
  | .client .. => false
  | .operation .. => true

/-- What an operation waits for after some parts of the reply. -/
def Expectation.collectAll (expects : Expectation) (parts : List Reply) : Expectation :=
  parts.foldl (fun expects part => expects.collect part) expects

/-- The same one waits, though parts of the reply may have arrived. -/
inductive Owner.Continues : Owner → Owner → Prop
  | client (tag : Option String) (onSuccess onError onPart : List Call) :
      Continues (.client tag onSuccess onError onPart) (.client tag onSuccess onError onPart)
  | operation (expects : Expectation) (parts : List Reply) (tag : Option String)
      (followUp : List Call) :
      Continues (.operation expects tag followUp)
        (.operation (expects.collectAll parts) tag followUp)

theorem Owner.Continues.refl (o : Owner) : o.Continues o := by
  cases o with
  | client tag onSuccess onError onPart => exact .client tag onSuccess onError onPart
  | operation expects tag followUp => exact .operation expects [] tag followUp

theorem Owner.Continues.trans {a b c : Owner} (h : a.Continues b) (k : b.Continues c) :
    a.Continues c := by
  cases h with
  | client => exact k
  | operation expects parts tag followUp =>
    cases k with
    | operation _ more =>
      rw [Expectation.collectAll, Expectation.collectAll, ← List.foldl_append]
      exact .operation expects (parts ++ more) tag followUp

theorem Owner.Continues.isOperation_eq {a b : Owner} (h : a.Continues b) :
    b.isOperation = a.isOperation := by
  cases h <;> rfl

/-- The same request, later: what stays are its key, its kind, the time it is given and
the one who waits. -/
structure Pending.Continues (p q : Pending) : Prop where
  id : q.id = p.id
  serial : q.serial = p.serial
  kind : q.kind = p.kind
  timeout : q.timeout = p.timeout
  owner : p.owner.Continues q.owner

namespace Pending.Continues

variable {p q r : Pending}

theorem refl (p : Pending) : p.Continues p := ⟨rfl, rfl, rfl, rfl, .refl p.owner⟩

theorem trans (h : p.Continues q) (k : q.Continues r) : p.Continues r :=
  ⟨k.id.trans h.id, k.serial.trans h.serial, k.kind.trans h.kind, k.timeout.trans h.timeout,
    h.owner.trans k.owner⟩

theorem key (h : p.Continues q) : q.key = p.key := by
  rw [Pending.key, Pending.key, h.id, h.serial]

end Pending.Continues

/-- The invocation of a client's callback. -/
def Ending.callback (request : RequestKey) (tag : Option String) (ending : Ending) : Event :=
  match ending.result with
  | .ok reply => .succeeded request tag reply
  | .error failure => .failed request tag failure

/-- What an operation may give its caller once its request has ended: an error as it is,
and a reply as what it resolves to.  For a file to open this is the handle under which it
was registered, or that the mount went down first. -/
def Expectation.Gives (expects : Expectation) (ending : Ending) (result : Except Failure Value) :
    Prop :=
  match expects, ending.result >>= fun reply => expects.resolve reply with
  | .file .., .ok _ => (∃ id, result = .ok (.file id)) ∨ result = .error .shutdown
  | _, settled => result = settled

/-- Of a request that failed the caller is given the failure, as it is. -/
theorem Expectation.eq_error_of_gives {expects : Expectation} {ending : Ending}
    {result : Except Failure Value} {failure : Failure} (h : expects.Gives ending result)
    (fails : ending.result = .error failure) : result = .error failure := by
  unfold Gives at h
  rw [fails] at h
  cases expects <;> exact h

/-- What a mount shows of itself: its settings, its open files and whether it is up. -/
def Mount.face (m : Mount) : MountSettings × OpenFiles × Bool := (m.settings, m.files, m.mounted)

namespace State

/-! ## Leaving things undisturbed -/

/-- Nothing happens that concerns who is owed a result, which ids are in use and which
files are open.  Requests may move on, as long as they stay the same requests. -/
structure Undisturbed (s t : State) : Prop where
  agenda : ∃ tasks, t.agenda = tasks ++ s.agenda ∧ ∀ task ∈ tasks, task.owed? = none
  history : ∃ events, t.history = events ++ s.history ∧ ∀ event ∈ events, event.paid? = none
  entries : ∃ f : Pending → Pending,
    (∀ p : Pending, p.Continues (f p)) ∧ t.ledger.entries = s.ledger.entries.map f
  nextSerial : t.ledger.nextSerial = s.ledger.nextSerial
  pool : t.pool = s.pool
  shared : t.callerPool.isSome = s.callerPool.isSome
  face : t.mount.map Mount.face = s.mount.map Mount.face
  held : t.managerHeld → s.managerHeld
  used : t.agenda.any Task.leavesMount → s.agenda.any Task.leavesMount ∨ s.mount?.isSome

/-- A change that keeps all it might disturb is none. -/
theorem Undisturbed.of_eq {s t : State} (agenda : t.agenda = s.agenda)
    (history : t.history = s.history) (ledger : t.ledger = s.ledger) (pool : t.pool = s.pool)
    (shared : t.callerPool.isSome = s.callerPool.isSome)
    (face : t.mount.map Mount.face = s.mount.map Mount.face)
    (held : t.managerHeld → s.managerHeld) : Undisturbed s t where
  agenda := ⟨[], agenda, by simp⟩
  history := ⟨[], history, by simp⟩
  entries := ⟨id, Pending.Continues.refl, by rw [ledger, List.map_id]⟩
  nextSerial := by rw [ledger]
  pool := pool
  shared := shared
  face := face
  held := held
  used := fun h => .inl (agenda ▸ h)

theorem Undisturbed.openFiles {s t : State} (h : Undisturbed s t) : t.openFiles = s.openFiles := by
  have hf := h.face
  cases hs : s.mount with
  | none =>
    rw [hs, Option.map_none, Option.map_eq_none_iff] at hf
    rw [State.openFiles, State.openFiles, hs, hf]
  | some m =>
    rw [hs, Option.map_some, Option.map_eq_some_iff] at hf
    obtain ⟨m', ht, hm⟩ := hf
    rw [State.openFiles, State.openFiles, hs, ht]
    exact congrArg (fun face => face.2.1.files) hm

theorem Undisturbed.up {s t : State} (h : Undisturbed s t) : t.up = s.up := by
  have hf := congrArg (Option.any fun face => face.2.2) h.face
  rwa [Option.any_map, Option.any_map] at hf

/-! ## Moves -/

variable (before : State) (task : Task)

/-- What a step does, bit by bit.  It is in a state `before`, and does `task`. -/
inductive Move : State → State → Prop
  /-- Nothing is disturbed, and manager and mount are as much in use as they were. -/
  | keep {s t : State} (h : Undisturbed s t) (alive : t.managerAlive = s.managerAlive)
      (inUse : t.mount?.isSome = s.mount?.isSome) : Move s t
  /-- A request is registered. -/
  | register {s : State} {p : Pending} {pool : IdPool} (held : s.managerHeld)
      (owner : task.owner? = some p.owner) (up : p.owner.isOperation → s.up)
      (drawn : s.pool.next? = some (p.id.val, pool)) (serial : p.serial = s.ledger.nextSerial) :
      Move s { s with pool, ledger := s.ledger.insert p }
  /-- A request leaves the ledger. -/
  | pull {s : State} {p : Pending} {ending : Ending} (mem : p ∈ s.ledger.entries)
      (old : p ∈ before.ledger.entries) (ends : task.ending? before p = some ending) :
      Move s ((s.pull p).push [.finish p ending])
  /-- All requests leave the ledger, as the mount may go down. -/
  | drain {s : State} {mount : Option Mount}
      (old : ∀ p ∈ s.ledger.entries,
        p ∈ before.ledger.entries ∧ task.ending? before p = some .shutDown)
      (down : mount = s.mount ∨ mount = s.mount.map fun m => { m with mounted := false }) :
      Move s { s with
        ledger := { s.ledger with entries := [] }
        pool := s.pool.releaseAll (s.ledger.entries.map (·.id.val))
        mount
        agenda := s.ledger.entries.map (fun p => .finish p .shutDown) ++ s.agenda }
  /-- The mark that a file is being closed is set or cleared. -/
  | mark {s : State} {m : Mount} (id : HandleId) (closing : Bool) (hm : s.mount = some m) :
      Move s { s with mount := some { m with files := m.files.mark id closing } }
  /-- A file enters the table. -/
  | add {s : State} {m : Mount} {path : String} {mode : OpenMode} {openedBy : RequestId}
      {id : HandleId} {files : OpenFiles} {pool : IdPool} (hm : s.mount = some m)
      (added : m.files.add? s.pool path mode openedBy = some (id, files, pool)) :
      Move s { s with pool, mount := some { m with files } }
  /-- A file leaves the table. -/
  | remove {s : State} {m : Mount} {id : HandleId} {file : OpenFile} {files : OpenFiles}
      {pool : IdPool} (hm : s.mount = some m)
      (removed : m.files.remove? s.pool id = some (file, files, pool)) :
      Move s { s with pool, mount := some { m with files } }
  /-- All files leave the table. -/
  | clear {s : State} {m : Mount} (hm : s.mount = some m) :
      Move s { s with pool := m.files.releaseAll s.pool, mount := some { m with files := {} } }
  /-- The id pool serves a caller who shares it. -/
  | share {s : State} {pool : IdPool} {call : PoolCall} {self : RequestId} {answer : Answer}
      (asked : task = .issue (.pool call) self) (shared : s.callerPool = none)
      (served : call.serve? s.pool self = some (pool, answer))
      (fair : ∀ ref, call = .release ref → (ref.resolve self).val ∉ s.ownedIds) :
      Move s { s with pool }

/-- A sequence of moves. -/
def Change : State → State → Prop := Relation.ReflTransGen (Move before task)

variable {before task} {s t u : State}

namespace Change

theorem refl (s : State) : Change before task s s := Relation.ReflTransGen.refl

theorem move (h : Move before task s t) : Change before task s t := Relation.ReflTransGen.single h

theorem trans (h : Change before task s t) (k : Change before task t u) :
    Change before task s u :=
  Relation.ReflTransGen.trans h k

end Change

/-! ## Passing a debt on -/

/-- A task that owes a callback passes the debt on to another task, or pays it. -/
inductive Pass : Task → State → State → Prop
  | finish (s : State) (p : Pending) (ending : Ending) :
      Pass (.finish p ending) s (s.push [.complete p ending])
  | wait (s : State) (p : Pending) (ending : Ending) :
      Pass (.complete p ending) s (s.push [.complete p ending])
  | client (s : State) {p : Pending} {ending : Ending} {tag : Option String}
      {onSuccess onError onPart : List Call}
      (owner : p.owner = .client tag onSuccess onError onPart) :
      Pass (.complete p ending) s (s.emit (ending.callback p.key tag))
  | operation (s : State) {p : Pending} {ending : Ending} {expects : Expectation}
      {tag : Option String} {followUp : List Call} {result : Except Failure Value}
      (owner : p.owner = .operation expects tag followUp) (gives : expects.Gives ending result) :
      Pass (.complete p ending) s (s.push [.done p.key tag result followUp])
  | done (s : State) (request : RequestKey) (tag : Option String) (result : Except Failure Value)
      (followUp : List Call) :
      Pass (.done request tag result followUp) s (s.emit (.done request tag result))

/-- What doing a task leads to, from the state in which it has left the agenda. -/
inductive Effect (before : State) : Task → State → State → Prop
  | change {task : Task} {s t : State} (quiet : task.owed? = none) (stays : task.leaves = false)
      (h : Change before task s t) : Effect before task s t
  | settle {task : Task} {s u v t : State} (h : Change before task s u) (pass : Pass task u v)
      (k : Change before task v t) : Effect before task s t
  | keepManager {s : State} (alive : s.managerAlive) : Effect before .leaveManager s s
  | dropManager {s : State} (gone : s.managerAlive = false) :
      Effect before .leaveManager s
        { s with ledger := { s.ledger with entries := [] }, observers := [] }
  | keepMount {s : State} (inUse : s.mount?.isSome) : Effect before .leaveMount s s
  | dropMount {s : State} (gone : s.mount?.isSome = false) :
      Effect before .leaveMount s (s.push [.takeDown, .leaveManager])

/-! ## What keeps the manager and the mount in use -/

theorem isSome_mount? (s : State) :
    s.mount?.isSome = s.mount.any fun m => 0 < m.holders || s.agenda.any Task.leavesMount := by
  rw [mount?, Option.isSome_filter]

theorem inUse_congr (holders : t.mount.map (·.holders) = s.mount.map (·.holders))
    (agenda : t.agenda.any Task.leavesMount = s.agenda.any Task.leavesMount) :
    t.mount?.isSome = s.mount?.isSome := by
  have h := congrArg (Option.any fun n => 0 < n || s.agenda.any Task.leavesMount) holders
  rwa [Option.any_map, Option.any_map, ← agenda, ← isSome_mount? t, agenda, ← isSome_mount? s] at h

theorem managerHeld_congr (holds : t.holdsManager = s.holdsManager)
    (holders : t.mount.map (·.holders) = s.mount.map (·.holders)) :
    t.managerHeld = s.managerHeld := by
  have h := congrArg (Option.any fun n => decide (0 < n)) holders
  rw [Option.any_map, Option.any_map] at h
  rw [managerHeld, managerHeld, heldMount?, heldMount?, Option.isSome_filter,
    Option.isSome_filter, holds]
  exact congrArg (s.holdsManager || ·) h

theorem managerAlive_congr (holds : t.holdsManager = s.holdsManager)
    (holders : t.mount.map (·.holders) = s.mount.map (·.holders))
    (mount : t.agenda.any Task.leavesMount = s.agenda.any Task.leavesMount)
    (manager : t.agenda.any Task.leavesManager = s.agenda.any Task.leavesManager) :
    t.managerAlive = s.managerAlive := by
  rw [managerAlive, managerAlive, holds, inUse_congr holders mount, manager]

theorem isSome_mount?_push (s : State) (tasks : List Task) :
    (s.push tasks).mount?.isSome =
      (s.mount?.isSome || s.mount.isSome && tasks.any Task.leavesMount) := by
  rw [isSome_mount?, isSome_mount?]
  cases hm : s.mount with
  | none => simp [push, hm]
  | some m =>
    simp only [push, hm, Option.any_some, List.any_append, Option.isSome_some, Bool.true_and]
    cases decide (0 < m.holders) <;> cases tasks.any Task.leavesMount <;> simp

theorem managerAlive_push (s : State) (tasks : List Task) :
    (s.push tasks).managerAlive =
      (s.managerAlive || s.mount.isSome && tasks.any Task.leavesMount ||
        tasks.any Task.leavesManager) := by
  rw [managerAlive, managerAlive, isSome_mount?_push]
  simp only [push, List.any_append]
  cases s.holdsManager <;> cases s.mount?.isSome <;> cases tasks.any Task.leavesManager <;>
    cases s.agenda.any Task.leavesManager <;> simp

/-- Whoever holds the manager keeps it alive. -/
theorem managerAlive_of_held (h : s.managerHeld) : s.managerAlive := by
  rw [managerHeld, Bool.or_eq_true] at h
  rw [managerAlive, Bool.or_eq_true, Bool.or_eq_true]
  refine .inl (h.imp_right ?_)
  intro hm
  rw [heldMount?, Option.isSome_filter] at hm
  rw [isSome_mount?]
  revert hm
  cases s.mount with
  | none => exact id
  | some m => exact fun h => Bool.or_eq_true _ _ ▸ .inl h

theorem mount_of_heldMount? {m : Mount} (h : s.heldMount? = some m) : s.mount = some m :=
  Option.eq_some_of_filter_eq_some h

theorem inUse_of_heldMount? {m : Mount} (h : s.heldMount? = some m) : s.mount?.isSome := by
  have hm := mount_of_heldMount? h
  rw [heldMount?, hm, Option.filter_some_eq_some] at h
  rw [isSome_mount?, hm, Option.any_some, h, Bool.true_or]

theorem managerHeld_of_heldMount? {m : Mount} (h : s.heldMount? = some m) : s.managerHeld := by
  rw [managerHeld, h, Option.isSome_some, Bool.or_true]

/-- A mount in use keeps its manager alive. -/
theorem managerAlive_of_inUse (h : s.mount?.isSome) : s.managerAlive := by
  rw [managerAlive, h, Bool.or_true, Bool.true_or]

theorem inUse_push (h : s.mount?.isSome) (tasks : List Task) : (s.push tasks).mount?.isSome := by
  rw [isSome_mount?_push, h, Bool.true_or]

theorem managerAlive_push_of_alive (h : s.managerAlive) (tasks : List Task) :
    (s.push tasks).managerAlive := by
  rw [managerAlive_push, h, Bool.true_or, Bool.true_or]

theorem exists_mount_of_inUse (h : s.mount?.isSome) : s.mount.isSome := by
  rw [isSome_mount?] at h
  revert h
  cases s.mount <;> simp

/-- No move but one that ends a use, of which there is none, changes what is in use. -/
theorem Move.stays (h : Move before task s t) :
    t.managerAlive = s.managerAlive ∧ t.mount?.isSome = s.mount?.isSome := by
  cases h with
  | keep h alive inUse => exact ⟨alive, inUse⟩
  | register => exact ⟨managerAlive_congr rfl rfl rfl rfl, inUse_congr rfl rfl⟩
  | pull => exact ⟨managerAlive_congr rfl rfl rfl rfl, inUse_congr rfl rfl⟩
  | @drain mount _ down =>
    have holders : mount.map (·.holders) = s.mount.map (·.holders) := by
      rcases down with rfl | rfl
      · rfl
      · rw [Option.map_map]
        rfl
    have hm : ∀ l : List Task, (s.ledger.entries.map (fun p => Task.finish p .shutDown) ++ l).any
        Task.leavesMount = l.any Task.leavesMount := by
      simp [List.any_append, Task.leavesMount]
    have hl : ∀ l : List Task, (s.ledger.entries.map (fun p => Task.finish p .shutDown) ++ l).any
        Task.leavesManager = l.any Task.leavesManager := by
      simp [List.any_append, Task.leavesManager]
    exact ⟨managerAlive_congr rfl holders (hm _) (hl _), inUse_congr holders (hm _)⟩
  | mark _ _ hm | add hm | remove hm | clear hm =>
    exact ⟨managerAlive_congr rfl (by rw [hm]; rfl) rfl rfl, inUse_congr (by rw [hm]; rfl) rfl⟩
  | share => exact ⟨managerAlive_congr rfl rfl rfl rfl, inUse_congr rfl rfl⟩

theorem Change.stays (h : Change before task s t) :
    t.managerAlive = s.managerAlive ∧ t.mount?.isSome = s.mount?.isSome := by
  induction h with
  | refl => exact ⟨rfl, rfl⟩
  | tail _ hm ih => exact ⟨hm.stays.1.trans ih.1, hm.stays.2.trans ih.2⟩

/-- Passing a debt on changes nothing but the agenda and the history. -/
theorem Pass.frame (h : Pass task s t) :
    t.ledger = s.ledger ∧ t.pool = s.pool ∧ t.callerPool = s.callerPool ∧ t.mount = s.mount ∧
      t.holdsManager = s.holdsManager ∧
      ∃ tasks, t.agenda = tasks ++ s.agenda ∧ ∀ x ∈ tasks, x.leaves = false := by
  cases h with
  | finish | wait | operation =>
    refine ⟨rfl, rfl, rfl, rfl, rfl, _, rfl, ?_⟩
    simp [Task.leaves, Task.leavesManager, Task.leavesMount]
  | client | done => exact ⟨rfl, rfl, rfl, rfl, rfl, [], rfl, by simp⟩

/-- Tasks that end no use do not matter for what is in use. -/
theorem any_leaves_append {tasks : List Task} (h : ∀ x ∈ tasks, x.leaves = false)
    (rest : List Task) :
    (tasks ++ rest).any Task.leavesManager = rest.any Task.leavesManager ∧
      (tasks ++ rest).any Task.leavesMount = rest.any Task.leavesMount := by
  have hl : ∀ x ∈ tasks, x.leavesManager = false ∧ x.leavesMount = false := by
    intro x hx
    simpa [Task.leaves] using h x hx
  have manager : tasks.any Task.leavesManager = false := by
    rw [List.any_eq_false]
    intro x hx
    simp [(hl x hx).1]
  have mount : tasks.any Task.leavesMount = false := by
    rw [List.any_eq_false]
    intro x hx
    simp [(hl x hx).2]
  rw [List.any_append, List.any_append, manager, mount, Bool.false_or, Bool.false_or]
  exact ⟨rfl, rfl⟩

theorem Pass.stays (h : Pass task s t) :
    t.managerAlive = s.managerAlive ∧ t.mount?.isSome = s.mount?.isSome := by
  obtain ⟨-, -, -, mount, holds, tasks, agenda, quiet⟩ := h.frame
  have hl := any_leaves_append quiet s.agenda
  rw [← agenda] at hl
  have holders : t.mount.map (·.holders) = s.mount.map (·.holders) := by rw [mount]
  exact ⟨managerAlive_congr holds holders hl.2 hl.1, inUse_congr holders hl.2⟩

/-! ## Small changes -/

namespace Change

/-- Timers, clock, observers, the finish script and the slots concern nobody's result. -/
theorem aside (agenda : t.agenda = s.agenda) (history : t.history = s.history)
    (ledger : t.ledger = s.ledger) (pool : t.pool = s.pool)
    (shared : t.callerPool.isSome = s.callerPool.isSome) (mount : t.mount = s.mount)
    (holds : t.holdsManager = s.holdsManager) : Change before task s t := by
  have holders : t.mount.map (·.holders) = s.mount.map (·.holders) := by rw [mount]
  have face : t.mount.map Mount.face = s.mount.map Mount.face := by rw [mount]
  exact .move (.keep
    (.of_eq agenda history ledger pool shared face (managerHeld_congr holds holders ▸ id))
    (managerAlive_congr holds holders (by rw [agenda]) (by rw [agenda]))
    (inUse_congr holders (by rw [agenda])))

theorem setFinishScript (s : State) (steps : List Call) :
    Change before task s { s with finishScript := steps } :=
  aside rfl rfl rfl rfl rfl rfl rfl

theorem emit (s : State) {event : Event} (h : event.paid? = none) :
    Change before task s (s.emit event) :=
  .move (.keep {
    agenda := ⟨[], rfl, by simp⟩
    history := ⟨[event], rfl, by simpa using h⟩
    entries := ⟨id, Pending.Continues.refl, by rw [List.map_id]; rfl⟩
    nextSerial := rfl
    pool := rfl
    shared := rfl
    face := rfl
    held := id
    used := .inl } rfl rfl)

theorem note (s : State) (notice : Notice) : Change before task s (s.note notice) := emit s rfl

theorem reply (s : State) (call : Call) (answer : Answer) :
    Change before task s (s.reply call answer) :=
  emit s rfl

/-- Tasks may be pushed that owe nothing, and that keep in use only what is in use. -/
theorem push (s : State) {tasks : List Task} (quiet : ∀ x ∈ tasks, x.owed? = none)
    (manager : tasks.any Task.leavesManager → s.managerAlive)
    (mount : tasks.any Task.leavesMount → s.mount?.isSome) :
    Change before task s (s.push tasks) := by
  have inUse : (s.push tasks).mount?.isSome = s.mount?.isSome := by
    rw [isSome_mount?_push]
    cases h : tasks.any Task.leavesMount with
    | false => simp
    | true => simp [mount h]
  refine .move (.keep {
    agenda := ⟨tasks, rfl, quiet⟩
    history := ⟨[], rfl, by simp⟩
    entries := ⟨id, Pending.Continues.refl, by rw [List.map_id]; rfl⟩
    nextSerial := rfl
    pool := rfl
    shared := rfl
    face := rfl
    held := id
    used := fun h => by
      rw [State.push, List.any_append, Bool.or_eq_true] at h
      exact (h.imp_left mount).symm } ?_ inUse)
  rw [managerAlive_push]
  cases h : tasks.any Task.leavesMount with
  | false =>
    cases h' : tasks.any Task.leavesManager with
    | false => simp
    | true => simp [manager h']
  | true => simp [managerAlive_of_inUse (mount h)]

theorem push_plain (s : State) {tasks : List Task} (plain : ∀ x ∈ tasks, x.plain) :
    Change before task s (s.push tasks) := by
  have hp : ∀ x ∈ tasks, x.owed? = none ∧ x.leavesManager = false ∧ x.leavesMount = false := by
    intro x hx
    simpa [Task.plain, Task.leaves] using plain x hx
  refine push s (fun x hx => (hp x hx).1) ?_ ?_
  · intro h
    obtain ⟨x, hx, hl⟩ := List.any_eq_true.1 h
    rw [(hp x hx).2.1] at hl
    cases hl
  · intro h
    obtain ⟨x, hx, hl⟩ := List.any_eq_true.1 h
    rw [(hp x hx).2.2] at hl
    cases hl

theorem push_single (s : State) {x : Task} (plain : x.plain) :
    Change before task s (s.push [x]) := by
  apply push_plain
  intro y hy
  rw [List.mem_singleton.1 hy]
  exact plain

theorem push_script (s : State) (steps : List Call) (self : RequestId) :
    Change before task s (s.push (Task.script steps self)) := by
  apply push_plain
  intro x hx
  obtain ⟨call, -, rfl⟩ := List.mem_map.1 hx
  rfl

theorem push_tells (s u : State) (request : RequestKey) (moment : Moment) :
    Change before task s (s.push (u.tells request moment)) := by
  apply push_plain
  intro x hx
  obtain ⟨i, -, rfl⟩ := List.mem_map.1 hx
  rfl

/-- A request in the ledger may move on. -/
theorem modify (s : State) (key : RequestKey) {f : Pending → Pending}
    (h : ∀ p : Pending, p.Continues (f p)) :
    Change before task s { s with ledger := s.ledger.modify key f } :=
  .move (.keep {
    agenda := ⟨[], rfl, by simp⟩
    history := ⟨[], rfl, by simp⟩
    entries := by
      refine ⟨fun p => if p.key = key then f p else p, ?_, rfl⟩
      intro p
      show p.Continues (if p.key = key then f p else p)
      split
      · exact h p
      · exact .refl p
    nextSerial := rfl
    pool := rfl
    shared := rfl
    face := rfl
    held := id
    used := .inl } rfl rfl)

/-- The link of a mount may change. -/
theorem modifyMount (s : State) {f : Mount → Mount} (face : ∀ m, (f m).face = m.face)
    (holders : ∀ m, (f m).holders = m.holders) : Change before task s (s.modifyMount f) := by
  have hf : (s.modifyMount f).mount.map Mount.face = s.mount.map Mount.face := by
    rw [State.modifyMount, Option.map_map]
    exact congrArg (Option.map · s.mount) (funext face)
  have hh : (s.modifyMount f).mount.map (·.holders) = s.mount.map (·.holders) := by
    rw [State.modifyMount, Option.map_map]
    exact congrArg (Option.map · s.mount) (funext holders)
  have held : (s.modifyMount f).managerHeld = s.managerHeld := managerHeld_congr rfl hh
  exact .move (.keep (.of_eq rfl rfl rfl rfl rfl hf (held ▸ id))
    (managerAlive_congr rfl hh rfl rfl) (inUse_congr hh rfl))

theorem modifyDirect (s : State) (f : DirectLink → DirectLink) :
    Change before task s (s.modifyDirect f) := by
  refine modifyMount s (fun m => ?_) (fun m => ?_) <;> cases m.link <;> rfl

theorem modifyChannel (s : State) (f : ChannelLink → ChannelLink) :
    Change before task s (s.modifyChannel f) := by
  refine modifyMount s (fun m => ?_) (fun m => ?_) <;> cases m.link <;> rfl

theorem arm (s : State) (request : RequestKey) (deadline : Nat) :
    Change before task s (s.arm request deadline) := by
  rw [State.arm]
  split
  · exact aside rfl rfl rfl rfl rfl rfl rfl
  · exact note s _

end Change

end State

end FileRelay
