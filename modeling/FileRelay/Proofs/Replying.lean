import FileRelay.Proofs.Shutdown

/-!
# Working off a final reply

A final reply is a success or an error, and ends the request that it is for.  Its delivery sets off
a handful of tasks: the request is finished, its callback invoked and the observers told, and then
the call is answered.  If nobody who is invoked on the way starts anything, these are all, one more
than six and one for each observer, wherever the agenda stood.

What is left then is told by `afterReply`, but for the history, to which `replyEvents` are added.
-/

namespace FileRelay

/-- A final reply: to which request, and what. -/
structure FinalReply where
  id : RequestId
  content : Except Failure Reply

namespace FinalReply

/-- What is delivered. -/
def delivery (reply : FinalReply) : Delivery :=
  match reply.content with
  | .ok content => .success content
  | .error failure => .error failure

/-- How the request comes to its end. -/
def ending (reply : FinalReply) : Ending :=
  match reply.content with
  | .ok content => .completed content
  | .error failure => .rejected failure

/-- The call that delivers it. -/
def call (reply : FinalReply) : Call := .deliver (.given reply.id) reply.delivery

theorem result_ending (reply : FinalReply) : reply.ending.result = reply.content := by
  rw [ending]
  cases reply.content <;> rfl

/-- Nobody gave the request up. -/
theorem abandoned_ending (reply : FinalReply) : reply.ending.outcome.abandoned = false := by
  rw [ending]
  cases reply.content <;> rfl

end FinalReply

/-- The file that a request is to close, if it is, and whether its reply lets the file be closed. -/
def Pending.closes? (p : Pending) (content : Except Failure Reply) : Option (HandleId × Bool) :=
  match p.owner with
  | .operation (.closing id) _ _ => some (id, (content >>= (Expectation.closing id).resolve).toBool)
  | _ => none

/-- Whether nothing follows from the end of an operation but that its caller is told, and that a
file is closed: opening a file records it, and an unmount takes the mount down. -/
def Expectation.alone : Expectation → Bool
  | file .. | unmounting => false
  | _ => true

namespace OpenFiles

/-- The table once a close has ended: a file that was closed is forgotten, any other may be used
again. -/
def endClose (table : OpenFiles) (id : HandleId) (success : Bool) : OpenFiles :=
  if success then ⟨table.files.filter (·.id ≠ id)⟩ else table.mark id false

/-- The ids that are free once a close has ended. -/
def freed (table : OpenFiles) (id : HandleId) (success : Bool) : List UInt32 :=
  if success then ((table.find? id).map OpenFile.ownedIds).getD [] else []

end OpenFiles

namespace Observer

/-- The observer once it has been told of the end of a request. -/
def spent : Observer → Observer
  | canceller => canceller
  | watcher name hooks => watcher name { hooks with finished := hooks.finished.turn.2 }

/-- Whether an observer runs no script when it is told of the end of a request. -/
def silent : Observer → Bool
  | canceller => true
  | watcher _ hooks => hooks.finished.turn.1.isEmpty

/-- What shows of an observer's being told of a moment. -/
def heard (key : RequestKey) (moment : Moment) : Observer → Option Event
  | canceller => none
  | watcher name _ => some (.observed name key moment)

theorem silent_spent {o : Observer} (h : o.silent) : o.spent.silent := by
  cases o with
  | canceller => rfl
  | watcher name hooks =>
    rw [silent, Hook.turn] at h
    rw [spent, silent, Hook.turn, Hook.turn]
    dsimp only at h ⊢
    split at h
    · rename_i none
      simp [none]
    · split
      · rfl
      · exact h

theorem heard_spent (key : RequestKey) (moment : Moment) (o : Observer) :
    o.spent.heard key moment = o.heard key moment := by
  cases o <;> rfl

end Observer

namespace State

variable {c s t u : State} {task : Task} {tasks : List Task} {depth fuel m n : Nat} {p : Pending}
  {reply : FinalReply} {expects : Expectation} {tag : Option String} {key : RequestKey}

/-! ## Working off what a call sets off -/

/-- Does tasks until no more than a given number are ahead, but no more than `fuel` of them. -/
def runTo (depth : Nat) : Nat → State → Option State
  | 0, s => if s.agenda.length ≤ depth then some s else none
  | fuel + 1, s => if s.agenda.length ≤ depth then some s else s.step.bind (runTo depth fuel)

/-- Makes a call and works off what it sets off, with what was ahead before left as it is. -/
def serve (s : State) (fuel : Nat) (call : Call) : Option State :=
  (s.push [.issue call ⟨0⟩]).runTo s.agenda.length fuel

/-- Delivers final replies one after the other, each once the one before has been worked off. -/
def deliverAll (fuel : Nat) : State → List FinalReply → Option State
  | s, [] => some s
  | s, reply :: rest => (s.serve fuel reply.call).bind (deliverAll fuel · rest)

/-- Some tasks are done, and before each of them more than a given number are ahead. -/
inductive Works (depth : Nat) : Nat → State → State → Prop
  | start {s : State} : Works depth 0 s s
  | step {s t u : State} {n : Nat} (deep : depth < s.agenda.length) (step : s.step = some t)
      (fair : ¬ s.Trespasses) (rest : Works depth n t u) : Works depth (n + 1) s u

theorem Works.trans (h : Works depth m s t) (k : Works depth n t u) : Works depth (m + n) s u := by
  induction h with
  | start =>
    rw [Nat.zero_add]
    exact k
  | step deep step fair _ ih =>
    rw [Nat.add_right_comm]
    exact .step deep step fair (ih k)

theorem Works.reaches (h : Works depth n s t) : Reaches s t := by
  induction h with
  | start => exact .refl _
  | step _ step fair _ ih => exact .head (.work step fair) ih

theorem Works.runTo_eq (h : Works depth n s t) (done : t.agenda.length ≤ depth)
    (enough : n ≤ fuel) : s.runTo depth fuel = some t := by
  induction h generalizing fuel with
  | start =>
    cases fuel <;> rw [runTo, if_pos done]
  | step deep step _ _ ih =>
    obtain ⟨fuel, rfl⟩ : ∃ k, fuel = k + 1 := ⟨fuel - 1, by omega⟩
    rw [runTo, if_neg (by omega), step, Option.bind_some]
    exact ih done (by omega)

/-- The task in front is done. -/
theorem Works.one (deep : depth ≤ c.agenda.length)
    (other : ∀ call self, task ≠ .issue (.pool call) self) (h : (c.push tasks).perform task = t) :
    Works depth 1 (c.push (task :: tasks)) t := by
  have ahead : (c.push (task :: tasks)).agenda = task :: (c.push tasks).agenda := rfl
  have fair := not_trespasses ahead fun ref => other (.release ref)
  refine .step ?_ ((step_of_agenda ahead).trans (congrArg some h)) fair .start
  rw [ahead, push, List.length_cons, List.length_append]
  omega

/-! ## What is left -/

/-- Ends the close that a request was about, if it was. -/
def endClosing (s : State) (p : Pending) (reply : FinalReply) : State :=
  match p.closes? reply.content with
  | some (id, success) => s.endClose id success
  | none => s

/-- What is left of a request that has been finished by its reply: it is out of the ledger, its id
is free, its timer stopped, and the observers have been told. -/
def retire (s : State) (p : Pending) : State :=
  { s with
    ledger := s.ledger.erase p.id
    pool := s.pool.release p.id.val
    timers := s.timers.stop p.key
    observers := s.observers.map Observer.spent }

/-- What is left once a final reply has been worked off, but for the history. -/
def afterReply (s : State) (p : Pending) (reply : FinalReply) : State :=
  (s.retire p).endClosing p reply

/-- What happens as a final reply is worked off, latest first. -/
def replyEvents (s : State) (p : Pending) (reply : FinalReply) : List Event :=
  match p.owner with
  | .operation expects tag _ =>
    .answered reply.call (.flag true) ::
      ((s.observers.filterMap
          (Observer.heard p.key (.finished p.kind reply.ending.outcome))).reverse ++
        [.done p.key tag (reply.content >>= expects.resolve),
          .noticed (.requestFinished p.id p.kind reply.ending.outcome)])
  | .client .. => []

/-- The end of a close frees ids and changes the table, if there is one. -/
theorem endClose_eq (s : State) (id : HandleId) (success : Bool) :
    s.endClose id success = match s.mount? with
      | none => s
      | some m => { s with
          pool := s.pool.releaseAll (m.files.freed id success)
          mount := some { m with files := m.files.endClose id success } } := by
  rw [endClose]
  cases hm : s.mount? with
  | none => rfl
  | some m =>
    have there : s.mount = some m := Option.eq_some_of_filter_eq_some hm
    cases success with
    | false => rfl
    | true =>
      simp only [if_true, OpenFiles.remove?, OpenFiles.freed, OpenFiles.endClose]
      cases found : m.files.find? id with
      | some file => rfl
      | none =>
        have same : m.files.files.filter (·.id ≠ id) = m.files.files := by
          rw [OpenFiles.find?, List.find?_eq_none] at found
          rw [List.filter_eq_self]
          simpa using found
        rw [same]
        show s = { s with mount := some m }
        rw [← there]

/-- The end of a close changes the pool and the mount only, as the mount is there or not. -/
theorem endClosing_congr (p : Pending) (reply : FinalReply) (mount : t.mount = s.mount)
    (pool : t.pool = s.pool) (there : t.mount? = s.mount?) :
    t.endClosing p reply = { t with
      mount := (s.endClosing p reply).mount, pool := (s.endClosing p reply).pool } := by
  have whole : t = { t with mount := s.mount, pool := s.pool } := by rw [← mount, ← pool]
  rw [endClosing, endClosing]
  cases p.closes? reply.content with
  | none => exact whole
  | some close =>
    dsimp only
    rw [endClose_eq, endClose_eq, there, pool]
    cases s.mount? with
    | none => exact whole
    | some m => rfl

/-- The mount is held by as many as before. -/
theorem holders_endClosing (s : State) (p : Pending) (reply : FinalReply) :
    (s.endClosing p reply).mount.map (·.holders) = s.mount.map (·.holders) := by
  rw [endClosing]
  cases p.closes? reply.content with
  | none => rfl
  | some close =>
    dsimp only
    rw [endClose_eq]
    cases hm : s.mount? with
    | none => rfl
    | some m => rw [Option.eq_some_of_filter_eq_some hm]; rfl

/-! ## The tasks that a final reply sets off -/

theorem mount?_push (none : tasks.any Task.leavesMount = false) :
    (c.push tasks).mount? = c.mount? := by
  rw [mount?, mount?, push, List.any_append, none, Bool.false_or]

theorem issue_call (held : s.managerHeld) (found : s.ledger.find? reply.id = some p)
    (self : RequestId) : s.issue reply.call self = (s.pull p).push
      [.finish p reply.ending, .leaveManager, .answer reply.call (.flag true)] := by
  obtain ⟨id, content⟩ := reply
  rw [FinalReply.call, State.issue, withManager, if_pos held]
  dsimp only [RequestRef.resolve]
  rw [found]
  unfold State.deliver
  have found' : (s.push (State.ending (.deliver (.given id) (FinalReply.delivery ⟨id, content⟩))
      (.flag true))).ledger.find? id = some p := found
  rw [Option.isSome_some, found']
  cases content <;> rfl

theorem finish_push {ending : Ending} (script : c.finishScript = []) :
    (c.push tasks).finish p ending = State.push
      { c with
        timers := c.timers.stop p.key
        history := .noticed (.requestFinished p.id p.kind ending.outcome) :: c.history }
      (.complete p ending :: .announce p.key (.finished p.kind ending.outcome) :: tasks) := by
  obtain ⟨⟩ := c
  cases script
  rfl

theorem agenda_endClosing (s : State) (p : Pending) (reply : FinalReply) :
    (s.endClosing p reply).agenda = s.agenda := by
  rw [endClosing_congr p reply rfl rfl rfl]

theorem endClosing_push (none : tasks.any Task.leavesMount = false) :
    (c.push tasks).endClosing p reply = (c.endClosing p reply).push tasks := by
  have pushed := endClosing_congr (s := c) (t := c.push tasks) p reply rfl rfl (mount?_push none)
  have same := endClosing_congr (s := c) (t := c) p reply rfl rfl rfl
  rw [pushed, same]
  rfl

/-- The callback of an operation is owed, and a file that was to be closed is. -/
theorem complete_push (owner : p.owner = .operation expects tag []) (alone : expects.alone)
    (none : tasks.any Task.leavesMount = false) :
    (c.push tasks).complete p reply.ending = (c.endClosing p reply).push
      (.done p.key tag (reply.content >>= expects.resolve) [] :: tasks) := by
  have passed : (c.push tasks).complete p reply.ending =
      ((c.push tasks).endClosing p reply).push
        [.done p.key tag (reply.content >>= expects.resolve) []] := by
    rw [State.complete, owner]
    unfold completeOperation
    rw [FinalReply.result_ending, endClosing, Pending.closes?, owner]
    cases expects with
    | file | unmounting => cases alone
    | closing | nothing | metadata | listing | data => rfl
  rw [passed, endClosing_push none]
  rfl

/-- An observer that runs no script is told of the end of a request. -/
theorem tell_push {i : Nat} {o : Observer} {kind : Request.Kind} {outcome : FileRelay.Outcome}
    (there : c.observers[i]? = some o) (silent : o.silent) (kept : outcome.abandoned = false) :
    (c.push tasks).tell i key (.finished kind outcome) = State.push { c with
      observers := c.observers.set i o.spent
      history := (o.heard key (.finished kind outcome)).toList ++ c.history } tasks := by
  have there' : (c.push tasks).observers[i]? = some o := there
  cases o with
  | canceller =>
    have same : c.observers.set i .canceller = c.observers := by
      obtain ⟨h, e⟩ := List.getElem?_eq_some_iff.1 there
      rw [← e]
      exact List.set_getElem_self h
    simp only [tell, there', kept]
    rw [Observer.spent, same]
    rfl
  | watcher name hooks =>
    rw [Observer.silent, List.isEmpty_iff] at silent
    simp only [tell, there', Hooks.turn, silent]
    rfl

theorem reverse_filterMap_cons {α β : Type} (f : α → Option β) (a : α) (l : List α) :
    ((a :: l).filterMap f).reverse = (l.filterMap f).reverse ++ (f a).toList := by
  cases h : f a <;> simp [h]

/-- All observers are told, one after the other. -/
theorem works_tells {kind : Request.Kind} {outcome : FileRelay.Outcome}
    (kept : outcome.abandoned = false) (todo told : List Observer)
    (present : c.observers = told ++ todo) (silent : ∀ o ∈ todo, o.silent)
    (deep : depth ≤ c.agenda.length) :
    Works depth todo.length
      (c.push ((List.range' told.length todo.length).map
        (.tell · key (.finished kind outcome)) ++ tasks))
      (State.push { c with
        observers := told ++ todo.map Observer.spent
        history := (todo.filterMap (Observer.heard key (.finished kind outcome))).reverse ++
          c.history } tasks) := by
  induction todo generalizing told c with
  | nil =>
    rw [List.append_nil] at present
    have same : { c with
        observers := told ++ [].map Observer.spent
        history := [] ++ c.history } = c := by
      rw [List.map_nil, List.append_nil, ← present]
      rfl
    exact same.symm ▸ .start
  | cons o todo ih =>
    have there : c.observers[told.length]? = some o := by simp [present]
    have set : c.observers.set told.length o.spent = told ++ [o.spent] ++ todo := by simp [present]
    let ahead : List Task := (List.range' (told.length + 1) todo.length).map
      (.tell · key (.finished kind outcome)) ++ tasks
    let next : State := { c with
      observers := told ++ [o.spent] ++ todo
      history := (o.heard key (.finished kind outcome)).toList ++ c.history }
    have first :
        (c.push ahead).tell told.length key (.finished kind outcome) = next.push ahead := by
      rw [tell_push there (silent o List.mem_cons_self) kept, set]
    have one : Works depth 1 (c.push (.tell told.length key (.finished kind outcome) :: ahead))
      (next.push ahead) := .one deep (by simp) first
    have others := ih (c := next) (told ++ [o.spent]) rfl
      (fun o ho => silent o (List.mem_cons_of_mem _ ho)) deep
    rw [List.length_append, List.length_singleton] at others
    rw [List.length_cons, List.range'_succ, List.map_cons, List.cons_append,
      Nat.add_comm todo.length 1, reverse_filterMap_cons, List.append_assoc, List.map_cons,
      List.append_cons]
    exact one.trans others

/-! ## The whole of it -/

/-- Delivering a final reply to a request that an operation waits for, wherever the agenda stands:
with nobody starting anything, as many tasks are done as there are observers and seven more. -/
theorem works_reply (held : s.managerHeld) (script : s.finishScript = [])
    (silent : ∀ o ∈ s.observers, o.silent) (found : s.ledger.find? reply.id = some p)
    (owner : p.owner = .operation expects tag []) (alone : expects.alone) :
    Works s.agenda.length (s.observers.length + 7) (s.push [.issue reply.call ⟨0⟩])
      { s.afterReply p reply with history := s.replyEvents p reply ++ s.history } := by
  let moment : Moment := .finished p.kind reply.ending.outcome
  let back : List Task := [.leaveManager, .answer reply.call (.flag true)]
  have retired := endClosing_congr (s := s.retire p) (t := s.retire p) p reply rfl rfl rfl
  -- The states that are come to, without the tasks that are still to be done.
  let finished : State := { s.pull p with
    timers := s.timers.stop p.key
    history := .noticed (.requestFinished p.id p.kind reply.ending.outcome) :: s.history }
  let closed : State := { finished with
    mount := ((s.retire p).endClosing p reply).mount
    pool := ((s.retire p).endClosing p reply).pool }
  let done : State := closed.emit (.done p.key tag (reply.content >>= expects.resolve))
  let told : State := { done with
    observers := [] ++ done.observers.map Observer.spent
    history := (done.observers.filterMap (Observer.heard p.key moment)).reverse ++ done.history }
  have issues : Works s.agenda.length 1 (s.push [.issue reply.call ⟨0⟩])
      ((s.pull p).push (.finish p reply.ending :: back)) :=
    .one (Nat.le_refl _) (by simp [FinalReply.call]) (issue_call held found ⟨0⟩)
  have finishes : Works s.agenda.length 1 ((s.pull p).push (.finish p reply.ending :: back))
      (finished.push (.complete p reply.ending :: .announce p.key moment :: back)) :=
    .one (Nat.le_refl _) (by simp) (finish_push script)
  have completes : Works s.agenda.length 1
      (finished.push (.complete p reply.ending :: .announce p.key moment :: back))
      (closed.push (.done p.key tag (reply.content >>= expects.resolve) [] ::
        .announce p.key moment :: back)) := by
    refine .one (Nat.le_refl _) (by simp) ?_
    rw [State.perform, complete_push owner alone rfl]
    have same := endClosing_congr (s := s.retire p) (t := finished) p reply rfl rfl rfl
    rw [same]
  have invokes : Works s.agenda.length 1
      (closed.push (.done p.key tag (reply.content >>= expects.resolve) [] ::
        .announce p.key moment :: back))
      (done.push (.announce p.key moment :: back)) := .one (Nat.le_refl _) (by simp) rfl
  have announces : Works s.agenda.length 1 (done.push (.announce p.key moment :: back))
      (done.push ((List.range' 0 done.observers.length).map (.tell · p.key moment) ++ back)) := by
    refine .one (Nat.le_refl _) (by simp) ?_
    show (done.push back).push (done.tells p.key moment) = _
    rw [tells, List.range_eq_range', push, push, push, List.append_assoc]
  have tells : Works s.agenda.length done.observers.length
      (done.push ((List.range' 0 done.observers.length).map (.tell · p.key moment) ++ back))
      (told.push back) :=
    works_tells reply.abandoned_ending done.observers [] rfl silent (Nat.le_refl _)
  have leaves : Works s.agenda.length 1 (told.push back)
      (told.push [.answer reply.call (.flag true)]) := by
    refine .one (Nat.le_refl _) (by simp) ?_
    have same : (told.push [.answer reply.call (.flag true)]).managerHeld = s.managerHeld :=
      managerHeld_congr rfl (holders_endClosing (s.retire p) p reply)
    rw [State.perform, discardManager, if_pos (managerAlive_of_held (same.trans held))]
  have answers : Works s.agenda.length 1 (told.push [.answer reply.call (.flag true)])
      (told.reply reply.call (.flag true)) := .one (Nat.le_refl _) (by simp) rfl
  have whole := issues.trans (finishes.trans (completes.trans (invokes.trans
    (announces.trans (tells.trans (leaves.trans answers))))))
  have count : 1 + (1 + (1 + (1 + (1 + (done.observers.length + (1 + 1)))))) =
      s.observers.length + 7 := by
    show 1 + (1 + (1 + (1 + (1 + (s.observers.length + (1 + 1)))))) = _
    omega
  have last : told.reply reply.call (.flag true) =
      { s.afterReply p reply with history := s.replyEvents p reply ++ s.history } := by
    rw [afterReply, retired, replyEvents, owner]
    simp [told, done, closed, finished, retire, pull, State.reply, emit, moment]
  rw [count, last] at whole
  exact whole

theorem serve_of_held (held : s.managerHeld) (script : s.finishScript = [])
    (silent : ∀ o ∈ s.observers, o.silent) (found : s.ledger.find? reply.id = some p)
    (owner : p.owner = .operation expects tag []) (alone : expects.alone)
    (enough : s.observers.length + 7 ≤ fuel) : s.serve fuel reply.call =
      some { s.afterReply p reply with history := s.replyEvents p reply ++ s.history } := by
  have works := works_reply held script silent found owner alone
  exact works.runTo_eq (Nat.le_of_eq (congrArg _ (agenda_endClosing _ p reply))) enough

/-- Without anybody who could get hold of the request manager, a reply is not delivered. -/
theorem serve_of_not_held (gone : s.managerHeld = false) (enough : 1 ≤ fuel) :
    s.serve fuel reply.call = some (s.reply reply.call (.word .noManager)) := by
  have answered : Works s.agenda.length 1 (s.push [.issue reply.call ⟨0⟩])
      (s.reply reply.call (.word .noManager)) := by
    refine .one (Nat.le_refl _) (by simp [FinalReply.call]) ?_
    show s.issue reply.call ⟨0⟩ = _
    rw [FinalReply.call, State.issue, withManager, if_neg (by simp [gone])]
  exact answered.runTo_eq (Nat.le_refl _) enough

end State

end FileRelay
