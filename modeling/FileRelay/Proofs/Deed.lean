import FileRelay.Proofs.Calm
import FileRelay.Proofs.Course

/-!
# What a task does

A task is either calm, or does one of a few things: it registers a request, accepts a part
of a reply, passes a part on, lets a request take parts again, invokes the callback of a
request that has ended, or forgets the open files.  This file says so once, in full, for
every task; how parts are passed on, when requests are handed over and which files are
open is then a matter of going through these cases.
-/

namespace FileRelay

/-- The request that is busy with a part of its reply as long as a task is ahead: the part
is to be passed on to it, or it is to take parts again. -/
def Task.occupant? : Task → Option RequestKey
  | .pass p _ => if p.accepting then some p.key else none
  | .resume key => some key
  | _ => none

/-- What doing a task delivers to the request of an id, if it does. -/
def Task.delivery? (s : State) (id : RequestId) : Task → Option Delivery
  | .issue (.deliver ref delivery) self =>
    if s.managerHeld ∧ ref.resolve self = id then some delivery else none
  | .poll =>
    match s.channel? with
    | some { inbox := message :: _, .. } =>
      if message.requestId = id then some message.delivery else none
    | _ => none
  | _ => none

/-- Whether the request that doing a task registers is to take its reply in parts. -/
def Task.streams : Task → Bool
  | .issue (.create _ _ streams _ _ _ _) _ => streams
  | .issue (.operate operation _ _) _ => operation.expectation.streams
  | _ => false

namespace State

variable {s t u : State} {task : Task} {p : Pending} {reply : Reply}

/-- The open files once an operation has been accepted: one to be closed is marked. -/
def filesAfter (s : State) : Operation → List OpenFile
  | .closeFile id => (OpenFiles.mark ⟨s.openFiles⟩ id true).files
  | _ => s.openFiles

/-- Nothing was recorded of a part of a reply, and nothing went to the provider. -/
def Silent (s t : State) : Prop :=
  ∃ events, t.history = events ++ s.history ∧ ∀ event ∈ events, event.calm

/-- Doing a task has a request enter the ledger. -/
structure Enters (task : Task) (p : Pending) (s t : State) : Prop where
  owner : task.owner? = some p.owner
  streams : p.accepting = task.streams
  serial : p.serial = s.ledger.nextSerial
  drawn : ∃ pool, s.pool.next? = some (p.id.val, pool)
  ledger : t.ledger = s.ledger.insert p
  silent : s.Silent t

/-- What doing a task comes to, from the state in which it has left the agenda. -/
inductive Deed (s : State) : Task → State → Prop
  | calm {task : Task} {t : State} (free : task.occupant? = none)
      (undelivered : ∀ p reply, s.ledger.find? p.id = some p →
        task.delivery? s p.id ≠ some (.part reply))
      (h : Calm task s t) : Deed s task t
  /-- A client's request is registered. -/
  | create {call : Call} {self : RequestId} {p : Pending} {tasks : List Task} {t : State}
      (client : p.owner.isOperation = false) (enters : Enters (.issue call self) p s t)
      (agenda : t.agenda = tasks ++ s.agenda) (calm : ∀ x ∈ tasks, x.calm)
      (files : t.openFiles = s.openFiles) : Deed s (.issue call self) t
  /-- An operation of the mount is accepted. -/
  | operate {operation : Operation} {tag : Option String} {followUp : List Call}
      {self : RequestId} {m : Mount} {content : Request} {p : Pending} {front back : List Task}
      {t : State} (enters : Enters (.issue (.operate operation tag followUp) self) p s t)
      (held : s.heldMount? = some m)
      (request : operation.request m.settings.info m.mounted m.files = .ok content)
      (agenda : t.agenda = front ++ .handOver p.key content :: (back ++ s.agenda))
      (front : front = s.tells p.key (.created content.kind)) (back : ∀ x ∈ back, x.calm)
      (files : t.openFiles = s.filesAfter operation) :
      Deed s (.issue (.operate operation tag followUp) self) t
  /-- A part of the reply to an outstanding request is accepted. -/
  | take {task : Task} {p : Pending} {reply : Reply} {front back : List Task} {t : State}
      (found : s.ledger.find? p.id = some p)
      (delivery : task.delivery? s p.id = some (.part reply))
      (agenda : t.agenda = front ++ .pass p reply :: (back ++ s.agenda))
      (front : ∀ x ∈ front, x.calm) (back : ∀ x ∈ back, x.calm) (silent : s.Silent t)
      (ledger : ∃ deadline : Option Nat, t.ledger = s.ledger.modify p.key fun q =>
        { q with deadline := deadline <|> q.deadline, accepting := false })
      (files : t.openFiles = s.openFiles) : Deed s task t
  /-- A part is passed on to the request it was accepted for. -/
  | pass {p : Pending} {reply : Reply} (accepting : p.accepting) :
      Deed s (.pass p reply) (s.pass p reply)
  | resume (key : RequestKey) : Deed s (.resume key) (s.resume key)
  | complete (p : Pending) (ending : Ending)
      (h : Quiet (.complete p ending) s (s.complete p ending)) :
      Deed s (.complete p ending) (s.complete p ending)
  | closeFiles (aborted : Nat) (h : Quiet (.closeFiles aborted) s (s.closeFiles aborted)) :
      Deed s (.closeFiles aborted) (s.closeFiles aborted)

theorem Silent.trans (h : s.Silent t) (k : t.Silent u) : s.Silent u := by
  obtain ⟨events, ht, calm⟩ := h
  obtain ⟨more, hu, calm'⟩ := k
  refine ⟨more ++ events, by rw [hu, ht, List.append_assoc], ?_⟩
  intro event he
  exact (List.mem_append.1 he).elim (calm' event) (calm event)

theorem Silent.of_eq (h : t.history = s.history) : s.Silent t := ⟨[], h, by simp⟩

/-! ## Accepting a part -/

/-- What accepting a part comes to: besides the ledger and the agenda, only the timers and
what was logged are different. -/
theorem takePart_eq (s : State) (p : Pending) (reply : Reply) :
    ∃ (deadline : Option Nat) (timers : Timers) (notices : List Notice) (front : List Task),
      (∀ x ∈ front, x.calm) ∧
      s.takePart p reply = { s with
        ledger := s.ledger.modify p.key fun q =>
          { q with deadline := deadline <|> q.deadline, accepting := false }
        timers
        history := notices.map .noticed ++ s.history
        agenda := front ++ .pass p reply :: s.agenda } := by
  have front : ∀ u : State, ∀ x ∈ u.tells p.key .progress, x.calm :=
    fun u x hx => Calm.calm_of_mem_tells hx fun _ => rfl
  unfold State.takePart
  dsimp only
  split
  · rw [State.arm]
    split
    · exact ⟨_, _, [], _, front _, by rw [State.push, List.append_assoc]; rfl⟩
    · exact ⟨_, _, [.timersMissing p.id], _, front _, by rw [State.push, List.append_assoc]; rfl⟩
  · exact ⟨_, _, [], _, front _, by rw [State.push, List.append_assoc]; rfl⟩

/-- A part that comes to an outstanding request is accepted. -/
theorem deliver_part {id : RequestId} (found : s.ledger.find? id = some p) :
    s.deliver id (.part reply) = s.takePart p reply := by
  simp only [State.deliver, found]

/-- A part is accepted once some calm tasks have been set. -/
theorem Deed.of_takePart {back : List Task} (found : s.ledger.find? p.id = some p)
    (delivery : task.delivery? s p.id = some (.part reply)) (ledger : u.ledger = s.ledger)
    (agenda : u.agenda = back ++ s.agenda) (calm : ∀ x ∈ back, x.calm) (silent : s.Silent u)
    (files : u.openFiles = s.openFiles) : Deed s task (u.takePart p reply) := by
  obtain ⟨deadline, timers, notices, front, front_calm, taken⟩ := takePart_eq u p reply
  rw [taken, ledger, agenda]
  refine .take found delivery rfl front_calm calm (silent.trans ?_) ⟨deadline, rfl⟩ files
  exact ⟨notices.map .noticed, rfl, by simp [Event.calm]⟩

/-! ## Registering a request -/

theorem create_deed (s : State) {call : Call} {self : RequestId} {kind : Request.Kind}
    {timeout : Option Nat} {streams : Bool} {owner : Owner} (client : owner.isOperation = false)
    (ho : (Task.issue call self).owner? = some owner)
    (hs : (Task.issue call self).streams = streams)
    (undelivered : ∀ p reply, s.ledger.find? p.id = some p →
      (Task.issue call self).delivery? s p.id ≠ some (.part reply)) :
    Deed s (.issue call self) (s.create call self kind timeout streams owner) := by
  unfold State.create
  split
  · exact .calm rfl undelivered (.again s call self)
  · rename_i u key hreg
    obtain ⟨p, pool, timers, notices, rfl, serial, rfl, rfl, drawn, rfl⟩ := register?_eq hreg
    refine .create client ⟨ho, hs.symm, serial, ⟨pool, drawn⟩, rfl, ?_⟩ rfl ?_ rfl
    · exact ⟨notices.map .noticed, rfl, by simp [Event.calm]⟩
    · intro x hx
      rcases List.mem_append.1 hx with hx | hx
      · exact Calm.calm_of_mem_tells hx fun _ => rfl
      · have calm : ∀ x ∈ [Task.leaveManager, .grant call p.key], x.calm := by simp [Task.calm]
        exact calm x hx

theorem openFiles_marked (s : State) (operation : Operation) :
    State.openFiles (match operation with
      | .closeFile id => s.modifyMount fun m => { m with files := m.files.mark id true }
      | _ => s) = s.filesAfter operation := by
  cases operation with
  | closeFile id =>
    rw [filesAfter, openFiles, openFiles]
    dsimp only [modifyMount]
    cases s.mount <;> rfl
  | _ => rfl

theorem operate_deed (s : State) (self : RequestId) (operation : Operation)
    (tag : Option String) (followUp : List Call) :
    Deed s (.issue (.operate operation tag followUp) self)
      (s.operate (.operate operation tag followUp) self operation tag followUp) := by
  have calm : ∀ t, Calm (.issue (.operate operation tag followUp) self) s t →
      Deed s (.issue (.operate operation tag followUp) self) t :=
    fun t h => .calm rfl (by simp [Task.delivery?]) h
  unfold State.operate
  cases hm : s.heldMount? with
  | none => exact calm _ (.reply s _ _)
  | some m =>
    dsimp only
    cases hr : operation.request m.settings.info m.mounted m.files with
    | error failure => exact calm _ (.reply s _ _)
    | ok content =>
      dsimp only
      split
      · exact calm _ (.again s _ self)
      · rename_i u key hreg
        obtain ⟨p, pool, timers, notices, rfl, serial, owner, streams, drawn, rfl⟩ :=
          register?_eq hreg
        -- Marking a file changes neither agenda nor ledger nor history.
        have pushed : ∀ x : State, x.agenda = s.agenda → x.ledger = s.ledger.insert p →
            x.observers = s.observers →
            x.history = notices.map .noticed ++ s.history →
            x.openFiles = s.filesAfter operation →
            Deed s (.issue (.operate operation tag followUp) self)
              (x.push (x.tells p.key (.created content.kind) ++ [.handOver p.key content,
                .verdict p.key, .leaveMount, .grant (.operate operation tag followUp) p.key])) := by
          intro x ha hl ho hh hf
          have agenda : (x.push (x.tells p.key (.created content.kind) ++
              [.handOver p.key content, .verdict p.key, .leaveMount,
                .grant (.operate operation tag followUp) p.key])).agenda =
              s.tells p.key (.created content.kind) ++ .handOver p.key content ::
                ([.verdict p.key, .leaveMount, .grant (.operate operation tag followUp) p.key] ++
                  s.agenda) := by
            rw [State.push, ha, State.tells, State.tells, ho]
            simp
          refine .operate ⟨by rw [Task.owner?, owner], streams, serial, ⟨pool, drawn⟩, hl, ?_⟩ hm hr
            agenda rfl (by simp [Task.calm]) hf
          exact ⟨notices.map .noticed, hh, by simp [Event.calm]⟩
        have files := openFiles_marked { s with
          pool, ledger := s.ledger.insert p, timers
          history := notices.map .noticed ++ s.history } operation
        cases operation with
        | closeFile id => exact pushed _ rfl rfl rfl rfl files
        | _ => exact pushed _ rfl rfl rfl rfl files

/-! ## Calls and messages -/

theorem issue_deed (s : State) (call : Call) (self : RequestId) :
    Deed s (.issue call self) (s.issue call self) := by
  cases call with
  | create kind timeout streams tag onSuccess onError onPart =>
    rw [State.issue, State.withManager]
    split
    · exact create_deed s rfl rfl rfl (by simp [Task.delivery?])
    · exact .calm rfl (by simp [Task.delivery?]) (.reply s _ _)
  | operate operation tag followUp => exact operate_deed s self operation tag followUp
  | deliver ref delivery =>
    by_cases part : ∃ p reply, s.managerHeld ∧ ref.resolve self = p.id ∧
        s.ledger.find? p.id = some p ∧ delivery = .part reply
    · obtain ⟨p, reply, held, hid, found, rfl⟩ := part
      rw [State.issue, State.withManager, if_pos held, hid]
      rw [deliver_part (p := p)]
      · refine .of_takePart found ?_ rfl rfl (by simp [ending, Task.calm]) (.of_eq rfl) rfl
        rw [Task.delivery?, if_pos ⟨held, hid⟩]
      · exact found
    · refine .calm rfl ?_ ?_
      · intro p reply found delivered
        rw [Task.delivery?, Option.ite_none_right_eq_some] at delivered
        exact part ⟨p, reply, delivered.1.1, delivered.1.2, found, Option.some.inj delivered.2⟩
      · rw [State.issue]
        refine Calm.withManager fun held => (Calm.push_ending s _ _).trans (.deliver _ _ _ ?_)
        intro p reply found hd
        have hid : p.id = ref.resolve self := by simpa using List.find?_some found
        exact part ⟨p, reply, held, hid.symm, hid ▸ found, hd⟩
  | _ => exact .calm rfl (by simp [Task.delivery?]) (.issue s _ self (by simp) (by simp) (by simp))

theorem poll_deed (s : State) (live : s.ledger.entries ≠ [] → s.managerAlive) :
    Deed s .poll s.poll := by
  by_cases part : ∃ link message rest p reply, s.channel? = some link ∧
      link.inbox = message :: rest ∧ message.requestId = p.id ∧
      s.ledger.find? p.id = some p ∧ message.delivery = .part reply
  · obtain ⟨link, message, rest, p, reply, hc, hi, hid, found, hd⟩ := part
    have alive := live (List.ne_nil_of_mem (List.mem_of_find?_eq_some found))
    have alive' : (s.modifyChannel ({ · with inbox := rest })).managerAlive := by
      have routed : Change s .poll s (s.modifyChannel ({ · with inbox := rest })) :=
        .modifyChannel s _
      rw [routed.stays.1]
      exact alive
    rw [State.poll, hc]
    dsimp only
    rw [hi]
    dsimp only
    rw [if_pos alive', hid, hd, deliver_part (p := p)]
    · refine .of_takePart found ?_ rfl rfl (by simp [Task.calm]) ?_ ?_
      · obtain ⟨⟩ := link
        cases hi
        rw [Task.delivery?, hc]
        dsimp only
        rw [if_pos hid, hd]
      · exact ⟨[.noticed _], rfl, by simp [Event.calm]⟩
      · have routed : Calm .poll s (s.modifyChannel ({ · with inbox := rest })) :=
          .modifyChannel s _
        exact routed.files
    · exact found
  · refine .calm rfl ?_ (.poll s ?_)
    · intro p reply found delivered
      rw [Task.delivery?] at delivered
      split at delivered
      · rename_i message _ _ _ _ _ hc
        rw [Option.ite_none_right_eq_some] at delivered
        exact part ⟨_, message, _, p, reply, hc, rfl, delivered.1, found,
          Option.some.inj delivered.2⟩
      · cases delivered
    · intro link message rest p reply hc hi found hd
      have hid : p.id = message.requestId := by simpa using List.find?_some found
      exact part ⟨link, message, rest, p, reply, hc, hi, hid.symm, hid ▸ found, hd⟩

theorem pass_deed (s : State) (p : Pending) (reply : Reply) :
    Deed s (.pass p reply) (s.pass p reply) := by
  by_cases accepting : p.accepting
  · exact .pass accepting
  · refine .calm (by rw [Task.occupant?, if_neg accepting]) (by simp [Task.delivery?]) ?_
    rw [State.pass, if_neg accepting]
    exact .note s _

/-! ## Invoking a callback -/

theorem Quiet.aside (agenda : t.agenda = s.agenda) (history : t.history = s.history)
    (ledger : t.ledger = s.ledger) : Quiet task s t where
  agenda := ⟨[], agenda, by simp⟩
  history := ⟨[], history, by simp⟩
  entries := fun q hq => ⟨q, ledger ▸ hq, .refl q⟩

theorem registerFile?_quiet {openedBy : RequestId} {path : String} {mode : OpenMode}
    {result : Except Failure Value}
    (h : s.registerFile? openedBy path mode = some (t, result)) : Quiet task s t := by
  unfold State.registerFile? at h
  split at h
  · cases h
    exact (Calm.note s _).toQuiet
  · split at h
    · split at h
      · cases h
      · cases h
        exact .aside rfl rfl rfl
    · cases h
      exact (Calm.note s _).toQuiet

theorem endClose_quiet (s : State) (id : HandleId) (success : Bool) :
    Quiet task s (s.endClose id success) := by
  unfold State.endClose
  split
  · exact .aside rfl rfl rfl
  · split
    · split <;> exact .aside rfl rfl rfl
    · exact .aside rfl rfl rfl

theorem completeOperation_quiet (s : State) (p : Pending) (ending : Ending)
    (expects : Expectation) (tag : Option String) (followUp : List Call) :
    Quiet task s (s.completeOperation p ending expects tag followUp) := by
  have next : ∀ (u : State) (x : Task), x.calm → Quiet task s u → Quiet task s (u.push [x]) := by
    intro u x hx h
    exact h.trans (Calm.push_calm u (by simpa using hx)).toQuiet
  unfold State.completeOperation
  dsimp only
  split
  · split
    · exact next s _ rfl (.aside rfl rfl rfl)
    · rename_i hreg
      exact next _ _ rfl (registerFile?_quiet hreg)
  · exact next _ _ rfl (endClose_quiet s _ _)
  · split
    · exact (Calm.push_calm s (by simp [Task.calm])).toQuiet
    · exact next s _ rfl (.aside rfl rfl rfl)
  · exact next s _ rfl (.aside rfl rfl rfl)

theorem complete_quiet (s : State) (p : Pending) (ending : Ending) :
    Quiet task s (s.complete p ending) := by
  unfold State.complete
  split
  · split
    · exact ((Calm.emit s rfl).trans (Calm.push_script _ _ _)).toQuiet
    · exact ((Calm.emit s rfl).trans (Calm.push_script _ _ _)).toQuiet
  · exact completeOperation_quiet s p ending _ _ _

theorem closeFiles_quiet (s : State) (aborted : Nat) : Quiet task s (s.closeFiles aborted) := by
  unfold State.closeFiles
  split
  · refine .trans ?_ (Calm.note _ _).toQuiet
    exact .aside rfl rfl rfl
  · exact .aside rfl rfl rfl

/-! ## Every task -/

theorem deed_perform (s : State) (task : Task)
    (live : s.ledger.entries ≠ [] → (s.push [task]).managerAlive) :
    Deed s task (s.perform task) := by
  cases task with
  | issue call self => exact issue_deed s call self
  | pass p reply => exact pass_deed s p reply
  | resume key => exact .resume key
  | complete p ending => exact .complete p ending (complete_quiet s p ending)
  | closeFiles aborted => exact .closeFiles aborted (closeFiles_quiet s aborted)
  | poll =>
    refine poll_deed s fun h => ?_
    have alive := live h
    rw [managerAlive_push] at alive
    simpa [Task.leavesMount, Task.leavesManager] using alive
  | answer call answer => exact .calm rfl (by simp [Task.delivery?]) (.reply s _ _)
  | grant call request => exact .calm rfl (by simp [Task.delivery?]) (.grant s _ _)
  | tell observer request moment =>
    exact .calm rfl (by simp [Task.delivery?]) (.tell s observer request moment)
  | announce request moment =>
    refine .calm rfl (by simp [Task.delivery?]) (.push s ?_)
    intro x hx
    obtain ⟨i, -, rfl⟩ := List.mem_map.1 hx
    exact .tell i request moment
  | finish p ending => exact .calm rfl (by simp [Task.delivery?]) (.finish s p ending)
  | handOver request content =>
    exact .calm rfl (by simp [Task.delivery?]) (.handOver s request content)
  | verdict request => exact .calm rfl (by simp [Task.delivery?]) (.verdict s request)
  | cancelVerdict request => exact .calm rfl (by simp [Task.delivery?]) (.cancelVerdict s request)
  | takeDown => exact .calm rfl (by simp [Task.delivery?]) (.takeDown s)
  | done request tag result followUp =>
    exact .calm rfl (by simp [Task.delivery?]) (.done s request tag result followUp)
  | polled word => exact .calm rfl (by simp [Task.delivery?]) (.polled s word)
  | elapse time => exact .calm rfl (by simp [Task.delivery?]) (.elapse s time)
  | leaveManager => exact .calm rfl (by simp [Task.delivery?]) (.discardManager s)
  | leaveMount => exact .calm rfl (by simp [Task.delivery?]) (.discardMount s)

/-- What a step does. -/
theorem exists_deed_of_step {b : State} (live : b.ledger.entries ≠ [] → b.managerAlive)
    (h : b.step = some t) :
    ∃ task rest, b.agenda = task :: rest ∧ Deed { b with agenda := rest } task t := by
  obtain ⟨task, rest, ha, rfl⟩ := exists_of_step h
  have hb : ({ b with agenda := rest } : State).push [task] = b := by
    cases b
    cases ha
    rfl
  exact ⟨task, rest, ha, deed_perform _ task (hb.symm ▸ live)⟩

/-! ## What comes of it -/

/-- A task that is on the agenda after a task has been done. -/
inductive Brings (s : State) (task : Task) (t : State) : Task → Prop
  | old {x : Task} (h : x ∈ s.agenda) : Brings s task t x
  | sets {x : Task} (h : task.Sets x) : Brings s task t x
  | handOver {operation : Operation} {tag : Option String} {followUp : List Call}
      {self : RequestId} {m : Mount} {content : Request} {p : Pending}
      (named : task = .issue (.operate operation tag followUp) self) (enters : Enters task p s t)
      (held : s.heldMount? = some m)
      (request : operation.request m.settings.info m.mounted m.files = .ok content)
      (agenda : ∃ front back, t.agenda = front ++ .handOver p.key content :: back ∧
        front = s.tells p.key (.created content.kind)) :
      Brings s task t (.handOver p.key content)
  | pass {p : Pending} {reply : Reply} (found : s.ledger.find? p.id = some p)
      (delivery : task.delivery? s p.id = some (.part reply)) : Brings s task t (.pass p reply)
  | resume {p : Pending} {reply : Reply} (named : task = .pass p reply) (accepting : p.accepting) :
      Brings s task t (.resume p.key)

theorem Brings.of_calm {x : Task} (h : x.calm) : Brings s task t x := .sets (.calm h)

theorem Quiet.brings {x : Task} (h : Quiet task s t) (hx : x ∈ t.agenda) : Brings s task t x := by
  obtain ⟨tasks, agenda, sets⟩ := h.agenda
  rw [agenda] at hx
  exact (List.mem_append.1 hx).elim (fun hx => .sets (sets x hx)) .old

theorem pass_agenda (s : State) {p : Pending} (reply : Reply) (accepting : p.accepting) :
    ∃ tasks, (s.pass p reply).agenda = tasks ++ s.agenda ∧
      ∀ x ∈ tasks, x.calm ∨ x = .resume p.key := by
  rw [State.pass, if_pos accepting]
  dsimp only
  split
  · rename_i tag onSuccess onError onPart _
    refine ⟨Task.script onPart p.id ++ [.resume p.key], rfl, ?_⟩
    intro x hx
    rcases List.mem_append.1 hx with hx | hx
    · obtain ⟨call, -, rfl⟩ := List.mem_map.1 hx
      exact .inl rfl
    · exact .inr (List.mem_singleton.1 hx)
  · exact ⟨[], rfl, by simp⟩

/-- Where the tasks on the agenda come from. -/
theorem Deed.brings {x : Task} (h : Deed s task t) (hx : x ∈ t.agenda) : Brings s task t x := by
  cases h with
  | calm _ _ h => exact h.brings hx
  | create _ _ agenda calm =>
    rw [agenda] at hx
    exact (List.mem_append.1 hx).elim (fun hx => .of_calm (calm x hx)) .old
  | operate enters held request agenda front back =>
    rw [agenda] at hx
    rcases List.mem_append.1 hx with hx | hx
    · rw [front] at hx
      exact .of_calm (Calm.calm_of_mem_tells hx fun _ => rfl)
    · rcases List.mem_cons.1 hx with rfl | hx
      · exact .handOver rfl enters held request ⟨_, _, agenda, front⟩
      · exact (List.mem_append.1 hx).elim (fun hx => .of_calm (back x hx)) .old
  | take found delivery agenda front back =>
    rw [agenda] at hx
    rcases List.mem_append.1 hx with hx | hx
    · exact .of_calm (front x hx)
    · rcases List.mem_cons.1 hx with rfl | hx
      · exact .pass found delivery
      · exact (List.mem_append.1 hx).elim (fun hx => .of_calm (back x hx)) .old
  | @pass p reply accepting =>
    obtain ⟨tasks, agenda, ht⟩ := pass_agenda s reply accepting
    rw [agenda] at hx
    rcases List.mem_append.1 hx with hx | hx
    · rcases ht x hx with calm | rfl
      · exact .of_calm calm
      · exact .resume rfl accepting
    · exact .old hx
  | resume => exact .old hx
  | complete p ending h => exact h.brings hx
  | closeFiles aborted h => exact h.brings hx

/-- Nothing that concerns a part or the provider is recorded but as the task says. -/
theorem Deed.records {event : Event} (h : Deed s task t) (he : event ∈ t.history) :
    event ∈ s.history ∨ task.Records event ∨
      ∃ p reply tag, task = .pass p reply ∧ p.accepting ∧ event = .part p.key tag reply := by
  have quiet : Quiet task s t → event ∈ s.history ∨ task.Records event := by
    intro h
    obtain ⟨events, history, records⟩ := h.history
    rw [history] at he
    exact (List.mem_append.1 he).symm.imp_right (records event)
  have silent : s.Silent t → event ∈ s.history ∨ task.Records event := by
    rintro ⟨events, history, calm⟩
    rw [history] at he
    exact (List.mem_append.1 he).symm.imp_right fun h => .calm (calm event h)
  cases h with
  | calm _ _ h => exact (quiet h.toQuiet).imp_right .inl
  | create _ enters | operate enters => exact (silent enters.silent).imp_right .inl
  | take _ _ _ _ _ h => exact (silent h).imp_right .inl
  | @pass p reply accepting =>
    rw [State.pass, if_pos accepting] at he
    dsimp only at he
    split at he
    · rename_i tag _ _ _ _
      rcases List.mem_cons.1 he with rfl | he
      · exact .inr (.inr ⟨p, reply, tag, rfl, accepting, rfl⟩)
      · rcases List.mem_cons.1 he with rfl | he
        · exact .inr (.inl (.calm rfl))
        · exact .inl he
    · rcases List.mem_cons.1 he with rfl | he
      · exact .inr (.inl (.calm rfl))
      · exact .inl he
  | resume => exact .inl he
  | complete _ _ h | closeFiles _ h => exact (quiet h).imp_right .inl

/-- A request that enters the ledger is new. -/
theorem Enters.bears {v w : State} {rest : List Task} (hn : Next v w) (hv : v.Sane)
    (fate : v.Fate p.key) (ha : v.agenda = task :: rest) (step : v.step = some w)
    (h : Enters task p { v with agenda := rest } w) : v.Bears w task p := by
  have mem : p ∈ w.ledger.entries := by
    rw [h.ledger]
    exact List.mem_append_right _ (List.mem_singleton_self p)
  have new : ¬ p.key.serial < v.ledger.nextSerial := by
    have serial : p.key.serial = v.ledger.nextSerial := h.serial
    omega
  refine ⟨hn, step, ⟨rest, ha⟩, ⟨p.owner, h.owner, .refl _⟩, ?_, ((hn.fate hv fate).of_mem mem).2⟩
  cases fate with
  | nothing nothing => exact nothing
  | outstanding known => exact (new known).elim
  | settled known => exact (new known).elim

/-- What a step of a run does. -/
theorem Sane.exists_deed {v w : State} (hv : v.Sane) (h : v.step = some w) :
    ∃ task rest, v.agenda = task :: rest ∧ Deed { v with agenda := rest } task w :=
  exists_deed_of_step hv.upkeep.live h

end State

end FileRelay
