import FileRelay.Proofs.Filing
import FileRelay.Proofs.Nesting
import FileRelay.Proofs.Telling

/-!
# What keeps the observers there

The observers go when their manager goes, and this is when nobody holds or uses it any more.  A
round must not come to nothing that way.  It does not: whatever calls observers, or is going to,
stands on the agenda before a task that ends a use of the manager or of the mount, and as long as
that task is there the manager is too.
-/

namespace FileRelay

/-- Whether doing a task calls observers, or may set a task that does without setting one that
ends a use behind it. -/
def Task.exposed : Task → Bool
  | .tell .. | .announce .. | .finish .. | .takeDown | .verdict _ => true
  | _ => false

/-- Behind every task that calls observers there is one that ends a use. -/
def Sheltered : List Task → Prop
  | [] => True
  | task :: rest => (task.exposed → rest.any Task.leaves) ∧ Sheltered rest

namespace Sheltered

variable {front back tasks : List Task} {task : Task}

/-- Tasks that call nobody may be put in front. -/
theorem cons (h : Sheltered back) (safe : task.exposed = false) : Sheltered (task :: back) := by
  refine ⟨fun exposed => ?_, h⟩
  rw [safe] at exposed
  cases exposed

theorem push (h : Sheltered back) (safe : ∀ x ∈ front, x.exposed = false) :
    Sheltered (front ++ back) := by
  induction front with
  | nil => exact h
  | cons x front ih =>
    exact (ih fun y hy => safe y (List.mem_cons_of_mem _ hy)).cons (safe x List.mem_cons_self)

/-- Any tasks may be put in front of one that ends a use. -/
theorem append (h : Sheltered back) (covered : back.any Task.leaves) (front : List Task) :
    Sheltered (front ++ back) := by
  induction front with
  | nil => exact h
  | cons x front ih =>
    refine ⟨fun _ => ?_, ih⟩
    show (front ++ back).any Task.leaves
    rw [List.any_append, covered, Bool.or_true]

theorem of_suffix (h : Sheltered back) (covered : back.any Task.leaves) (suffix : back <:+ tasks) :
    Sheltered tasks := by
  obtain ⟨front, rfl⟩ := suffix
  exact h.append covered front

/-- What stands behind a task that calls observers ends a use. -/
theorem covered (h : Sheltered (front ++ task :: back)) (exposed : task.exposed) :
    back.any Task.leaves := by
  induction front with
  | nil => exact h.1 exposed
  | cons x front ih => exact ih h.2

end Sheltered

namespace State

variable {s₀ b s t : State} {task : Task} {rest front back : List Task} {call : Call}
  {answer : Answer} {steps : List State}

/-! ## Calls -/

theorem push_ending_covered (h : Sheltered s.agenda) :
    Sheltered (s.push (ending call answer)).agenda ∧
      (s.push (ending call answer)).agenda.any Task.leaves :=
  ⟨h.push (by simp [ending, Task.exposed]), by simp [push, ending, Task.leaves, Task.leavesManager]⟩

theorem Mute.suffix (h : Mute s t) : s.agenda <:+ t.agenda := by
  obtain ⟨tasks, agenda, -⟩ := h.agenda
  exact ⟨tasks, agenda.symm⟩

theorem Round.suffix {key : RequestKey} {moment : Moment} (h : Round s t key moment back) :
    s.agenda <:+ t.agenda :=
  ⟨s.tells key moment ++ back, by rw [h.agenda, List.append_assoc]⟩

theorem Hums.suffix (h : Hums s t) : s.agenda <:+ t.agenda := by
  rcases h with h | ⟨-, p, moment, back, -, -, -, h⟩
  · exact h.suffix
  · exact h.suffix

theorem Hums.sheltered (h : Hums s t) (hs : Sheltered s.agenda)
    (covered : s.agenda.any Task.leaves) : Sheltered t.agenda :=
  hs.of_suffix covered h.suffix

/-- What a call sets before its end is sheltered by its end. -/
theorem Hums.sheltered_of_ending (h : Hums (s.push (ending call answer)) t)
    (hs : Sheltered s.agenda) : Sheltered t.agenda :=
  h.sheltered (push_ending_covered hs).1 (push_ending_covered hs).2

theorem withManager_sheltered {serve : State} (hs : Sheltered s.agenda)
    (h : Sheltered serve.agenda) : Sheltered (s.withManager call serve).agenda := by
  unfold State.withManager
  split
  · exact h
  · exact hs

theorem withMount_sheltered {serve : Mount → State} (hs : Sheltered s.agenda)
    (h : ∀ m, Sheltered (serve m).agenda) : Sheltered (s.withMount call serve).agenda := by
  unfold State.withMount
  split
  · exact hs
  · exact h _

theorem abort_sheltered (hs : Sheltered s.agenda) (p : Option Pending) :
    Sheltered (s.abort call p).agenda := by
  unfold State.abort
  split
  · exact hs
  · exact Hums.sheltered_of_ending (.inl (.finishNow _ _ _)) hs

theorem drain_suffix (s : State) (after : List Task) :
    ∃ front, (s.drain after).agenda = front ++ (after ++ s.agenda) := by
  unfold State.drain
  dsimp only
  split <;> exact ⟨_, List.append_assoc _ _ _⟩

/-- A task for each request that leaves the ledger is sheltered by what is set behind them. -/
theorem drain_sheltered {after : List Task} (h : Sheltered (after ++ s.agenda))
    (covered : (after ++ s.agenda).any Task.leaves) : Sheltered (s.drain after).agenda := by
  obtain ⟨front, agenda⟩ := drain_suffix s after
  rw [agenda]
  exact h.append covered front

theorem agenda_send (s : State) (message : Incoming) : (s.send message).1.agenda = s.agenda := by
  unfold State.send
  split
  · rfl
  · split
    · rfl
    · split
      · rfl
      · split <;> rfl

theorem serveChannel_sheltered (hs : Sheltered s.agenda) (link : ChannelLink) :
    Sheltered (s.serveChannel call link).agenda := by
  unfold State.serveChannel
  split
  · split <;> exact hs
  · exact hs
  · exact hs
  · split
    · exact hs.cons rfl
    · exact hs
  · split <;> exact hs
  · exact hs

theorem create_sheltered (hs : Sheltered s.agenda) (self : RequestId) (kind : Request.Kind)
    (timeout : Option Nat) (streams : Bool) (owner : Owner) :
    Sheltered (s.create call self kind timeout streams owner).agenda := by
  unfold State.create
  split
  · exact hs.cons rfl
  · rename_i u key hreg
    obtain ⟨p, pool, timers, notices, -, -, -, -, -, rfl⟩ := register?_eq hreg
    have ended : Sheltered ([.leaveManager, .grant call key] ++ s.agenda) :=
      hs.push (by simp [Task.exposed])
    rw [State.push, List.append_assoc]
    exact ended.append (by simp [Task.leaves, Task.leavesManager]) _

theorem operate_sheltered (hs : Sheltered s.agenda) (self : RequestId) (operation : Operation)
    (tag : Option String) (followUp : List Call) :
    Sheltered (s.operate call self operation tag followUp).agenda := by
  unfold State.operate
  split
  · exact hs
  · split
    · exact hs
    · dsimp only
      split
      · exact hs.cons rfl
      · rename_i content _ _ u key hreg
        obtain ⟨p, pool, timers, notices, -, -, -, -, -, rfl⟩ := register?_eq hreg
        have ended : Sheltered ([.leaveMount, .grant call key] ++ s.agenda) :=
          hs.push (by simp [Task.exposed])
        have covered :
            ([Task.leaveMount, Task.grant call key] ++ s.agenda).any Task.leaves := by
          simp [Task.leaves, Task.leavesMount]
        -- Marking a file to be closed does not concern the agenda.
        have pushed : ∀ x : State, x.agenda = s.agenda → Sheltered (x.push
            (x.tells key (.created content.kind) ++
              [.handOver key content, .verdict key, .leaveMount, .grant call key])).agenda := by
          intro x agenda
          rw [State.push, agenda]
          have split : x.tells key (.created content.kind) ++
              [.handOver key content, .verdict key, .leaveMount, .grant call key] ++ s.agenda =
              (x.tells key (.created content.kind) ++ [.handOver key content, .verdict key]) ++
                ([.leaveMount, .grant call key] ++ s.agenda) := by simp
          rw [split]
          exact ended.append covered _
        cases operation <;> exact pushed _ rfl

theorem issue_sheltered (hs : Sheltered s.agenda) (call : Call) (self : RequestId) :
    Sheltered (s.issue call self).agenda := by
  cases call with
  | pool call =>
    rw [State.issue]
    split
    · exact hs.cons rfl
    · rename_i pool answer _
      have held : (s.setHeldPool pool).agenda = s.agenda := by
        rw [State.setHeldPool]
        split <;> rfl
      show Sheltered (s.setHeldPool pool).agenda
      rwa [held]
  | create => exact withManager_sheltered hs (create_sheltered hs _ _ _ _ _)
  | operate => exact operate_sheltered hs _ _ _ _
  | observe => exact withManager_sheltered hs hs
  | markDelivered ref =>
    exact withManager_sheltered hs ((Hums.markDelivered _ _).sheltered_of_ending hs)
  | deliver ref delivery =>
    exact withManager_sheltered hs ((Hums.deliver _ _ _).sheltered_of_ending hs)
  | timeOut ref =>
    refine withManager_sheltered hs ?_
    split
    · exact hs
    · exact Hums.sheltered_of_ending (.inl (.timeOut _ _)) hs
  | abort ref => exact withManager_sheltered hs (abort_sheltered hs _)
  | contains ref | count | isEmpty => exact withManager_sheltered hs hs
  | stage ref =>
    refine withManager_sheltered hs ?_
    split <;> exact hs
  | shutDownRequests =>
    refine withManager_sheltered hs (drain_sheltered ?_ ?_)
    · exact hs.push (by simp [ending, Task.exposed])
    · simp [ending, Task.leaves, Task.leavesManager]
  | abortSlot slot =>
    rw [State.issue]
    split
    · exact hs
    · exact abort_sheltered hs _
  | slotPending slot =>
    rw [State.issue]
    split <;> exact hs
  | managerSize | onFinish => exact hs
  | releaseManager =>
    rw [State.issue]
    split
    · exact hs.push (by simp [ending, Task.exposed])
    · exact hs
  | shutDown =>
    refine withMount_sheltered hs fun _ => ?_
    have ended : Sheltered ([.leaveMount, .answer .shutDown .none] ++ s.agenda) :=
      hs.push (by simp [Task.exposed])
    exact ended.append (by simp [Task.leaves, Task.leavesMount]) [.takeDown]
  | file id =>
    refine withMount_sheltered hs fun m => ?_
    split <;> exact hs
  | info | shareMount | keepManager => exact withMount_sheltered hs fun _ => hs
  | releaseMount =>
    rw [State.issue]
    split
    · exact hs
    · exact hs.push (by simp [Task.exposed])
  | instruct => exact hs
  | send message =>
    show Sheltered (s.send message).1.agenda
    rwa [agenda_send]
  | receive | stopListening | hangUp | pump | discardDriver =>
    rw [State.issue]
    split
    · exact hs
    · exact serveChannel_sheltered hs _
  | advance millis => exact hs.push (by simp [Task.exposed])

/-! ## Other tasks -/

theorem push_script_sheltered (hs : Sheltered s.agenda) (script : List Call) (self : RequestId) :
    Sheltered (Task.script script self ++ s.agenda) := by
  refine hs.push ?_
  intro x hx
  obtain ⟨call, -, rfl⟩ := List.mem_map.1 hx
  rfl

theorem pass_sheltered (hs : Sheltered s.agenda) (p : Pending) (reply : Reply) :
    Sheltered (s.pass p reply).agenda := by
  unfold State.pass
  split
  · dsimp only
    split
    · have resumed : Sheltered ([.resume p.key] ++ s.agenda) := hs.push (by simp [Task.exposed])
      show Sheltered (_ ++ [.resume p.key] ++ s.agenda)
      rw [List.append_assoc]
      exact push_script_sheltered (s := s.push [.resume p.key]) resumed _ _
    · exact hs
  · exact hs

theorem agenda_registerFile? {openedBy : RequestId} {path : String} {mode : OpenMode}
    {result : Except Failure Value}
    (h : s.registerFile? openedBy path mode = some (t, result)) : t.agenda = s.agenda := by
  unfold State.registerFile? at h
  split at h
  · cases h
    rfl
  · split at h
    · split at h
      · cases h
      · cases h
        rfl
    · cases h
      rfl

theorem complete_sheltered (hs : Sheltered s.agenda) (p : Pending) (ending : Ending) :
    Sheltered (s.complete p ending).agenda := by
  have next : ∀ x : Task, x.exposed = false → Sheltered ([x] ++ s.agenda) :=
    fun x safe => hs.push (by simpa using safe)
  unfold State.complete
  split
  · split <;> exact push_script_sheltered hs _ _
  · unfold State.completeOperation
    dsimp only
    split
    · split
      · exact next _ rfl
      · rename_i registered
        rw [State.push, agenda_registerFile? registered]
        exact next _ rfl
    · rw [State.push, agenda_endClose]
      exact next _ rfl
    · split
      · refine ⟨fun _ => ?_, (hs.cons rfl).cons rfl⟩
        simp [Task.leaves, Task.leavesMount]
      · exact next _ rfl
    · exact next _ rfl

theorem poll_sheltered (hs : Sheltered s.agenda) : Sheltered s.poll.agenda := by
  have ended : ∀ word, Sheltered ([.polled word] ++ s.agenda) :=
    fun word => hs.push (by simp [Task.exposed])
  unfold State.poll
  cases s.channel? with
  | none => exact hs
  | some link =>
    dsimp only
    split
    · rename_i message rest _
      split
      · have routed : Sheltered ([.leaveManager, .poll] ++ s.agenda) :=
          hs.push (by simp [Task.exposed])
        refine (Hums.deliver _ _ _).sheltered routed ?_
        simp [State.push, Task.leaves, Task.leavesManager]
      · exact ended _
    · split
      · exact ended _
      · split
        · split
          · exact ended _
          · refine ⟨fun _ => ?_, (hs.cons rfl).cons rfl⟩
            simp [Task.leaves, Task.leavesMount]
        · exact ended _

theorem elapse_sheltered (hs : Sheltered s.agenda) (time : Nat) :
    Sheltered (s.elapse time).agenda := by
  unfold State.elapse
  split
  · split
    · exact hs
    · dsimp only
      split
      · exact hs.cons rfl
      · have expired : Sheltered ([.leaveManager, .elapse time] ++ s.agenda) :=
          hs.push (by simp [Task.exposed])
        refine Hums.sheltered (.inl (.timeOut _ _)) expired ?_
        simp [State.push, Task.leaves, Task.leavesManager]
  · exact hs

/-- A task that calls nobody itself sets none that do without an end of use behind them. -/
theorem perform_sheltered (hs : Sheltered s.agenda) (task : Task) (safe : task.exposed = false) :
    Sheltered (s.perform task).agenda := by
  cases task with
  | issue call self => exact issue_sheltered hs call self
  | complete p ending => exact complete_sheltered hs p ending
  | pass p reply => exact pass_sheltered hs p reply
  | poll => exact poll_sheltered hs
  | elapse time => exact elapse_sheltered hs time
  | done key tag result followUp => exact push_script_sheltered hs _ _
  | handOver key content =>
    show Sheltered (s.handOver key content).agenda
    unfold State.handOver
    split
    · exact hs
    · split
      · exact push_script_sheltered hs _ _
      · exact hs
  | cancelVerdict key =>
    show Sheltered (s.cancelVerdict key).agenda
    unfold State.cancelVerdict
    split <;> exact hs
  | closeFiles aborted =>
    show Sheltered (s.closeFiles aborted).agenda
    unfold State.closeFiles
    split <;> exact hs
  | leaveManager =>
    show Sheltered s.discardManager.agenda
    unfold State.discardManager
    split <;> exact hs
  | leaveMount =>
    show Sheltered s.discardMount.agenda
    unfold State.discardMount
    split
    · exact hs
    · refine ⟨fun _ => ?_, hs.cons rfl⟩
      simp [Task.leaves, Task.leavesManager]
  | answer | grant | resume | polled => exact hs
  | tell | announce | finish | takeDown | verdict => cases safe

/-! ## A run -/

theorem Next.sheltered (hn : Next s t) (hs : s.Sane) (h : Sheltered s.agenda) :
    Sheltered t.agenda := by
  cases hn with
  | work step fair =>
    obtain ⟨task, rest, ha, e⟩ := hs.upkeep.exists_effect fair step
    rw [ha] at h
    cases exposed : task.exposed with
    | true => exact h.2.of_suffix (h.1 exposed) e.suffix
    | false =>
      rw [step_of_agenda ha] at step
      cases step
      exact perform_sheltered h.2 task exposed
  | call call self => exact h.cons rfl
  | rewind n => exact h

theorem Reaches.sheltered (start : Start s₀) (h : Reaches s₀ s) : Sheltered s.agenda :=
  h.invariant (P := fun s => Sheltered s.agenda) (by cases start <;> trivial)
    fun _ _ hu hn hs => hn.sheltered (hu.sane start.sane) hs

/-- The manager is there as long as a task that ends a use is ahead. -/
theorem Backed.alive_of_covered (hs : s.Backed) (covered : s.agenda.any Task.leaves) :
    s.managerAlive := by
  obtain ⟨x, mem, leaves⟩ := List.any_eq_true.1 covered
  rw [Task.leaves, Bool.or_eq_true] at leaves
  rcases leaves with manager | mount
  · have used : s.agenda.any Task.leavesManager := List.any_eq_true.2 ⟨x, mem, manager⟩
    rw [managerAlive, used, Bool.or_true]
  · have used : s.agenda.any Task.leavesMount := List.any_eq_true.2 ⟨x, mem, mount⟩
    have there := hs.used used
    refine managerAlive_of_inUse ?_
    rw [isSome_mount?, used]
    revert there
    cases s.mount <;> simp

/-- The manager is there as long as observers are to be called. -/
theorem Sane.alive_of_exposed (hs : s.Sane) (h : Sheltered s.agenda) (mem : task ∈ s.agenda)
    (exposed : task.exposed) : s.managerAlive := by
  obtain ⟨front, back, ha⟩ := List.append_of_mem mem
  rw [ha] at h
  refine hs.upkeep.alive_of_covered ?_
  rw [ha, List.any_append, List.any_cons, h.covered exposed, Bool.or_true, Bool.or_true]

end State

end FileRelay
