import FileRelay.Proofs.Replying
import FileRelay.Proofs.Authority

/-!
# Replies that do not depend on each other

Final replies to different requests may come in any order.  Each takes its request out of the
ledger, frees its id and stops its timer; a close that ends besides frees a file, or unmarks it.
What one does leaves what the other is about as it is, so the same is left in the end whichever came
first, and each caller is given the same.  Only the order in which things happened is another.

This takes that nobody who is invoked on the way starts anything, and that no reply records a file
or takes the mount down.
-/

namespace FileRelay

/-! ## Freeing ids -/

namespace IdPool

theorem releaseAll_eq (pool : IdPool) (ids : List UInt32) :
    pool.releaseAll ids = { pool with live := pool.live.filter (· ∉ ids) } := by
  induction ids generalizing pool with
  | nil => simp [releaseAll]
  | cons id ids ih =>
    have rest := ih (pool.release id)
    rw [releaseAll, List.foldl_cons]
    rw [releaseAll] at rest
    rw [rest, release, List.filter_filter]
    simp [bne, beq_eq_decide, Bool.and_comm]

/-- It does not matter which ids are freed first. -/
theorem releaseAll_comm (pool : IdPool) (ids others : List UInt32) :
    (pool.releaseAll ids).releaseAll others = (pool.releaseAll others).releaseAll ids := by
  simp only [releaseAll_eq, List.filter_filter, Bool.and_comm]

theorem release_releaseAll (pool : IdPool) (id : UInt32) (ids : List UInt32) :
    (pool.releaseAll ids).release id = (pool.release id).releaseAll ids :=
  releaseAll_comm pool ids [id]

end IdPool

/-! ## Ending closes -/

namespace OpenFiles

variable {table : OpenFiles} {id other : HandleId}

/-- A mark says nothing about what a file keeps in use. -/
theorem freed_mark (table : OpenFiles) (id other : HandleId) (closing success : Bool) :
    (table.mark id closing).freed other success = table.freed other success := by
  rw [freed, freed, find?, find?, mark, List.find?_map, Option.map_map]
  have found : (fun file : OpenFile => decide (file.id = other)) ∘
      (fun file : OpenFile => if file.id = id then { file with closing } else file) =
        fun file => decide (file.id = other) := by
    funext file
    dsimp only [Function.comp]
    split <;> rfl
  have owned : OpenFile.ownedIds ∘
      (fun file : OpenFile => if file.id = id then { file with closing } else file) =
        OpenFile.ownedIds := by
    funext file
    dsimp only [Function.comp]
    split <;> rfl
  rw [found, owned]

/-- What the end of a close frees does not depend on the end of another file's. -/
theorem freed_endClose (ne : other ≠ id) (success last : Bool) :
    (table.endClose id success).freed other last = table.freed other last := by
  cases success with
  | false => exact freed_mark table id other false last
  | true =>
    have kept : (fun file : OpenFile => decide (decide (file.id ≠ id) = true ∧
        decide (file.id = other) = true)) = fun file => decide (file.id = other) := by
      funext file
      by_cases same : file.id = other
      · simp [same, ne]
      · simp [same]
    simp only [endClose, freed, if_true, find?, List.find?_filter, kept]

/-- It does not matter which close ends first. -/
theorem endClose_comm (table : OpenFiles) (id other : HandleId) (success last : Bool) :
    (table.endClose id success).endClose other last =
      (table.endClose other last).endClose id success := by
  -- Forgetting a file and unmarking another go past each other.
  have past : ∀ a b : HandleId, (table.endClose a true).endClose b false =
      (table.endClose b false).endClose a true := by
    intro a b
    simp only [endClose, if_true, Bool.false_eq_true, if_false, mark, List.filter_map]
    refine congrArg (fun files => OpenFiles.mk (List.map _ files)) ?_
    refine List.filter_congr fun file _ => ?_
    dsimp only [Function.comp]
    split <;> rfl
  cases success with
  | true =>
    cases last with
    | true => simp only [endClose, if_true, List.filter_filter, Bool.and_comm]
    | false => exact past id other
  | false =>
    cases last with
    | true => exact (past other id).symm
    | false =>
      simp only [endClose, Bool.false_eq_true, if_false, mark, List.map_map]
      refine congrArg (fun f => OpenFiles.mk (List.map f table.files)) (funext fun file => ?_)
      dsimp only [Function.comp]
      simp only [apply_ite OpenFile.id, ite_self]
      split <;> split <;> rfl

/-- The ids that two closes free are the same whichever ends first. -/
theorem releaseAll_freed_comm (table : OpenFiles) (pool : IdPool) (id other : HandleId)
    (success last : Bool) :
    (pool.releaseAll (table.freed id success)).releaseAll
        ((table.endClose id success).freed other last) =
      (pool.releaseAll (table.freed other last)).releaseAll
        ((table.endClose other last).freed id success) := by
  by_cases same : other = id
  · subst same
    -- The close that does not forget the file frees nothing.
    have past : (pool.releaseAll (table.freed other false)).releaseAll
          ((table.endClose other false).freed other true) =
        (pool.releaseAll (table.freed other true)).releaseAll
          ((table.endClose other true).freed other false) := by
      show pool.releaseAll ((table.mark other false).freed other true) =
        pool.releaseAll (table.freed other true)
      rw [freed_mark]
    cases success with
    | true =>
      cases last with
      | true => rfl
      | false => exact past.symm
    | false =>
      cases last with
      | true => exact past
      | false => rfl
  · rw [freed_endClose same, freed_endClose (Ne.symm same), IdPool.releaseAll_comm]

end OpenFiles

/-! ## What follows from the end of an operation -/

namespace Expectation

theorem alone_collect (expects : Expectation) (part : Reply) :
    (expects.collect part).alone = expects.alone := by
  unfold collect
  split
  · split <;> rfl
  · split <;> rfl
  · rfl

/-- What has arrived so far does not matter. -/
theorem alone_collectAll (expects : Expectation) (parts : List Reply) :
    (expects.collectAll parts).alone = expects.alone := by
  induction parts generalizing expects with
  | nil => rfl
  | cons part parts ih => rw [collectAll_cons, ih, alone_collect]

end Expectation

theorem Operation.alone_expectation {operation : Operation} (opening : operation.kind ≠ .openFile)
    (unmounting : operation.kind ≠ .unmount) : operation.expectation.alone := by
  cases operation with
  | openFile => exact (opening rfl).elim
  | unmount => exact (unmounting rfl).elim
  | _ => rfl

/-! ## Two replies -/

namespace State

variable {s t u : State} {p q : Pending} {reply other : FinalReply}
  {replies others : List FinalReply} {expects : Expectation} {tag : Option String}
  {key : RequestKey} {fuel : Nat} {settings : MountSettings} {link : Link} {timersRun : Bool}
  {firstId : UInt32} {horizon : Nat}

theorem mount?_endClose (s : State) (id : HandleId) (success : Bool) :
    (s.endClose id success).mount? =
      s.mount?.map fun m => { m with files := m.files.endClose id success } := by
  rw [endClose_eq]
  cases hm : s.mount? with
  | none => exact hm
  | some m =>
    have inUse : (0 < m.holders || s.agenda.any Task.leavesMount) = true := by
      rw [mount?, Option.filter_eq_some_iff] at hm
      simpa using hm.2
    dsimp only
    rw [mount?, Option.filter_some, if_pos (by simpa using inUse)]
    rfl

/-- Two closes end, one after the other. -/
theorem endClose_endClose {m : Mount} (hm : s.mount? = some m) (id other : HandleId)
    (success last : Bool) : (s.endClose id success).endClose other last = { s with
      pool := (s.pool.releaseAll (m.files.freed id success)).releaseAll
        ((m.files.endClose id success).freed other last)
      mount := some { m with files := (m.files.endClose id success).endClose other last } } := by
  rw [endClose_eq _ other, mount?_endClose, endClose_eq, hm]
  rfl

theorem endClose_comm (s : State) (id other : HandleId) (success last : Bool) :
    (s.endClose id success).endClose other last = (s.endClose other last).endClose id success := by
  cases hm : s.mount? with
  | none =>
    have gone : ∀ id success, s.endClose id success = s := fun id success => by
      rw [endClose_eq, hm]
    rw [gone, gone, gone]
  | some m =>
    rw [endClose_endClose hm, endClose_endClose hm, OpenFiles.endClose_comm,
      OpenFiles.releaseAll_freed_comm]

theorem retire_endClose (s : State) (p : Pending) (id : HandleId) (success : Bool) :
    (s.endClose id success).retire p = (s.retire p).endClose id success := by
  have same : (s.retire p).mount? = s.mount? := rfl
  rw [endClose_eq, endClose_eq, same]
  cases s.mount? with
  | none => rfl
  | some m =>
    dsimp only [retire]
    rw [IdPool.release_releaseAll]

theorem retire_comm (s : State) (p q : Pending) :
    (s.retire p).retire q = (s.retire q).retire p := by
  have ledger : (s.ledger.erase p.id).erase q.id = (s.ledger.erase q.id).erase p.id := by
    simp only [Ledger.erase, List.filter_filter, Bool.and_comm]
  have timers : (s.timers.stop p.key).stop q.key = (s.timers.stop q.key).stop p.key := by
    simp only [Timers.stop, List.filter_filter, Bool.and_comm]
  have pool : (s.pool.release p.id.val).release q.id.val =
      (s.pool.release q.id.val).release p.id.val := IdPool.release_releaseAll _ _ [p.id.val]
  dsimp only [retire]
  rw [ledger, timers, pool]

theorem endClosing_comm (s : State) (p q : Pending) (reply other : FinalReply) :
    (s.endClosing p reply).endClosing q other = (s.endClosing q other).endClosing p reply := by
  unfold endClosing
  cases p.closes? reply.content with
  | none => rfl
  | some close =>
    cases q.closes? other.content with
    | none => rfl
    | some close' => exact endClose_comm s close.1 close'.1 close.2 close'.2

theorem retire_endClosing (s : State) (p q : Pending) (reply : FinalReply) :
    (s.endClosing p reply).retire q = (s.retire q).endClosing p reply := by
  unfold endClosing
  cases p.closes? reply.content with
  | none => rfl
  | some close => exact retire_endClose s q close.1 close.2

/-- It does not matter which of two replies comes first. -/
theorem afterReply_comm (s : State) (p q : Pending) (reply other : FinalReply) :
    (s.afterReply p reply).afterReply q other = (s.afterReply q other).afterReply p reply := by
  calc (s.afterReply p reply).afterReply q other
      = (((s.retire p).retire q).endClosing p reply).endClosing q other :=
        congrArg (endClosing · q other) (retire_endClosing _ p q reply)
    _ = (((s.retire q).retire p).endClosing q other).endClosing p reply := by
        rw [endClosing_comm, retire_comm]
    _ = (s.afterReply q other).afterReply p reply :=
        congrArg (endClosing · p reply) (retire_endClosing _ q p other).symm

/-! ## One reply after the other -/

/-- What is left once a final reply to the request of an id has been worked off, but for the
history. -/
def applied (s : State) (reply : FinalReply) : State :=
  match s.ledger.find? reply.id with
  | some p => s.afterReply p reply
  | none => s

/-- What happens as it is worked off, latest first. -/
def appliedEvents (s : State) (reply : FinalReply) : List Event :=
  match s.ledger.find? reply.id with
  | some p => s.replyEvents p reply
  | none => []

/-- Besides pool and mount, a reply changes what is said of its request, and the observers. -/
theorem afterReply_eq (s : State) (p : Pending) (reply : FinalReply) :
    s.afterReply p reply = { s.retire p with
      mount := (s.afterReply p reply).mount, pool := (s.afterReply p reply).pool } :=
  endClosing_congr p reply rfl rfl rfl

theorem applied_of_some (found : s.ledger.find? reply.id = some p) :
    s.applied reply = s.afterReply p reply := by
  rw [applied, found]

theorem applied_of_none (none : s.ledger.find? reply.id = none) : s.applied reply = s := by
  rw [applied, none]

theorem ledger_applied (s : State) (reply : FinalReply) :
    (s.applied reply).ledger = s.ledger.erase reply.id := by
  rw [applied]
  cases found : s.ledger.find? reply.id with
  | some p =>
    have id : p.id = reply.id := by simpa using List.find?_some found
    dsimp only
    rw [afterReply_eq, ← id]
    rfl
  | none =>
    rw [Ledger.find?, List.find?_eq_none] at found
    have same : s.ledger.entries.filter (·.id ≠ reply.id) = s.ledger.entries := by
      rw [List.filter_eq_self]
      simpa using found
    rw [Ledger.erase, same]

theorem find?_applied (ne : other.id ≠ reply.id) :
    (s.applied reply).ledger.find? other.id = s.ledger.find? other.id := by
  rw [ledger_applied, Ledger.find?_erase_of_ne ne]

theorem applied_comm (ne : other.id ≠ reply.id) :
    (s.applied reply).applied other = (s.applied other).applied reply := by
  have later : (s.applied reply).ledger.find? other.id = s.ledger.find? other.id := find?_applied ne
  have later' : (s.applied other).ledger.find? reply.id = s.ledger.find? reply.id :=
    find?_applied (Ne.symm ne)
  cases found : s.ledger.find? reply.id with
  | none => rw [applied_of_none (later'.trans found), applied_of_none found]
  | some p =>
    cases found' : s.ledger.find? other.id with
    | none => rw [applied_of_none (later.trans found'), applied_of_none found']
    | some q =>
      rw [applied_of_some (later.trans found'), applied_of_some (later'.trans found),
        applied_of_some found, applied_of_some found', afterReply_comm]

/-- Replies to different requests may come in any order. -/
theorem foldl_applied_perm (distinct : (replies.map (·.id)).Nodup) (perm : replies.Perm others) :
    replies.foldl applied s = others.foldl applied s := by
  refine perm.foldl_eq' (fun x hx y hy z => ?_) s
  by_cases same : y.id = x.id
  · rw [List.inj_on_of_nodup_map distinct hy hx same]
  · exact applied_comm same

/-! ## What a reply leaves as it is -/

theorem applied_history (s : State) (reply : FinalReply) (history : List Event) :
    ({ s with history } : State).applied reply = { s.applied reply with history } := by
  cases found : s.ledger.find? reply.id with
  | none => rw [applied_of_none found, applied_of_none (s := { s with history }) found]
  | some p =>
    rw [applied_of_some found, applied_of_some (s := { s with history }) found, afterReply_eq s]
    exact endClosing_congr (s := s.retire p) p reply rfl rfl rfl

theorem foldl_applied_history (s : State) (replies : List FinalReply) (history : List Event) :
    replies.foldl applied { s with history } = { replies.foldl applied s with history } := by
  induction replies generalizing s with
  | nil => rfl
  | cons reply rest ih => rw [List.foldl_cons, List.foldl_cons, applied_history, ih]

theorem observers_applied (s : State) (reply : FinalReply) :
    (s.applied reply).observers = s.observers ∨
      (s.applied reply).observers = s.observers.map Observer.spent := by
  cases found : s.ledger.find? reply.id with
  | none => exact .inl (by rw [applied_of_none found])
  | some p => exact .inr (by rw [applied_of_some found, afterReply_eq]; rfl)

theorem replyEvents_congr (p : Pending) (reply : FinalReply)
    (same : t.observers = s.observers ∨ t.observers = s.observers.map Observer.spent) :
    t.replyEvents p reply = s.replyEvents p reply := by
  have heard : ∀ key moment, t.observers.filterMap (Observer.heard key moment) =
      s.observers.filterMap (Observer.heard key moment) := by
    intro key moment
    rcases same with same | same
    · rw [same]
    · rw [same, List.filterMap_map]
      exact congrArg (List.filterMap · s.observers) (funext (Observer.heard_spent key moment))
  rw [replyEvents, replyEvents, heard]

/-- What happens as a reply is worked off is the same after another. -/
theorem appliedEvents_applied (ne : other.id ≠ reply.id) (history : List Event) :
    ({ s.applied reply with history } : State).appliedEvents other = s.appliedEvents other := by
  have later : (s.applied reply).ledger.find? other.id = s.ledger.find? other.id := find?_applied ne
  rw [appliedEvents, appliedEvents]
  dsimp only
  rw [later]
  cases s.ledger.find? other.id with
  | none => rfl
  | some q => exact replyEvents_congr q other (observers_applied s reply)

/-- Nobody who looks on starts anything when a request comes to its end. -/
structure Inert (s : State) : Prop where
  /-- Whoever reads the notices does nothing when the end of a request is noted. -/
  script : s.finishScript = []
  silent : ∀ o ∈ s.observers, o.silent

theorem Inert.applied (h : s.Inert) (reply : FinalReply) (history : List Event) :
    ({ s.applied reply with history } : State).Inert := by
  constructor
  · show (s.applied reply).finishScript = []
    cases found : s.ledger.find? reply.id with
    | none =>
      rw [applied_of_none found]
      exact h.script
    | some p =>
      rw [applied_of_some found, afterReply_eq]
      exact h.script
  · show ∀ o ∈ (s.applied reply).observers, o.silent
    rcases observers_applied s reply with same | spent
    · rw [same]
      exact h.silent
    · rw [spent]
      intro o ho
      obtain ⟨x, hx, rfl⟩ := List.mem_map.1 ho
      exact Observer.silent_spent (h.silent x hx)

theorem managerHeld_applied (s : State) (reply : FinalReply) :
    (s.applied reply).managerHeld = s.managerHeld := by
  cases found : s.ledger.find? reply.id with
  | none => rw [applied_of_none found]
  | some p =>
    rw [applied_of_some found]
    refine managerHeld_congr ?_ (holders_endClosing (s.retire p) p reply)
    rw [afterReply_eq]
    rfl

theorem length_observers_applied (s : State) (reply : FinalReply) :
    (s.applied reply).observers.length = s.observers.length := by
  rcases observers_applied s reply with same | spent
  · rw [same]
  · rw [spent, List.length_map]

/-! ## A list of replies -/

/-- A reply is to a request that an operation waits for, of which nothing follows but that its
caller is told and a file is closed, and the caller starts nothing then. -/
def Addressed (s : State) (reply : FinalReply) : Prop :=
  ∃ p expects tag, s.ledger.find? reply.id = some p ∧ p.owner = .operation expects tag [] ∧
    expects.alone

/-- What comes of delivering replies one after the other. -/
theorem deliverAll_of_held (held : s.managerHeld) (inert : s.Inert)
    (distinct : (replies.map (·.id)).Nodup) (addressed : ∀ reply ∈ replies, s.Addressed reply)
    (enough : s.observers.length + 7 ≤ fuel) :
    ∃ t, s.deliverAll fuel replies = some t ∧ Reaches s t ∧ t = { replies.foldl applied s with
      history := replies.reverse.flatMap s.appliedEvents ++ s.history } := by
  induction replies generalizing s with
  | nil => exact ⟨s, rfl, .refl s, rfl⟩
  | cons reply rest ih =>
    obtain ⟨p, expects, tag, found, owner, alone⟩ := addressed reply List.mem_cons_self
    obtain ⟨new, distinct⟩ := List.nodup_cons.1 distinct
    have ne : ∀ other ∈ rest, other.id ≠ reply.id :=
      fun other ho same => new (List.mem_map.2 ⟨other, ho, same⟩)
    obtain ⟨u, hu⟩ : ∃ u : State, u = { s.applied reply with
      history := s.appliedEvents reply ++ s.history } := ⟨_, rfl⟩
    have whole : { s.afterReply p reply with
        history := s.replyEvents p reply ++ s.history } = u := by
      rw [hu, applied_of_some found, appliedEvents, found]
    have served := serve_of_held held inert.script inert.silent found owner alone enough
    have works := works_reply held inert.script inert.silent found owner alone
    rw [whole] at served works
    have held' : u.managerHeld := by
      rw [hu]
      exact (managerHeld_applied s reply).trans held
    have addressed' : ∀ other ∈ rest, u.Addressed other := by
      intro other ho
      obtain ⟨q, expects, tag, found, rest⟩ := addressed other (List.mem_cons_of_mem _ ho)
      refine ⟨q, expects, tag, ?_, rest⟩
      rw [hu]
      exact (find?_applied (ne other ho)).trans found
    have enough' : u.observers.length + 7 ≤ fuel := by
      rw [hu]
      exact (length_observers_applied s reply).symm ▸ enough
    obtain ⟨t, ht, reached, eq⟩ :=
      ih held' (hu ▸ inert.applied reply _) distinct addressed' enough'
    have folded : rest.foldl applied u = { rest.foldl applied (s.applied reply) with
        history := s.appliedEvents reply ++ s.history } := hu ▸ foldl_applied_history _ _ _
    have events : rest.reverse.flatMap u.appliedEvents = rest.reverse.flatMap s.appliedEvents := by
      refine List.flatMap_congr fun other ho => ?_
      exact hu ▸ appliedEvents_applied (ne other (List.mem_reverse.1 ho)) _
    refine ⟨t, ?_, .head (.call _ _) (works.reaches.trans reached), ?_⟩
    · rw [deliverAll, served, Option.bind_some]
      exact ht
    · rw [eq, folded, events, List.foldl_cons, List.reverse_cons, List.flatMap_append,
        List.append_assoc, hu, List.flatMap_singleton]

/-- Without anybody who could get hold of the request manager, no reply is delivered. -/
theorem deliverAll_of_not_held (gone : s.managerHeld = false) (enough : 1 ≤ fuel) :
    s.deliverAll fuel replies = some { s with
      history := replies.reverse.map (fun reply => .answered reply.call (.word .noManager)) ++
        s.history } := by
  induction replies generalizing s with
  | nil => rfl
  | cons reply rest ih =>
    rw [deliverAll, serve_of_not_held gone enough, Option.bind_some]
    refine (ih (s := s.reply reply.call (.word .noManager)) gone).trans ?_
    simp [State.reply, emit]

theorem ledger_foldl_applied (s : State) (replies : List FinalReply) :
    (replies.foldl applied s).ledger.entries =
      s.ledger.entries.filter fun p => p.id ∉ replies.map (·.id) := by
  induction replies generalizing s with
  | nil => simp
  | cons reply rest ih =>
    rw [List.foldl_cons, ih, ledger_applied, Ledger.erase, List.filter_filter]
    refine List.filter_congr fun p _ => ?_
    simp [not_or, Bool.and_comm]

/-! ## Replies to different requests -/

/-- Any replies to different requests of operations that neither open a file nor take the mount
down, whose callers start nothing when they are told. -/
structure Independent (s : State) (replies : List FinalReply) : Prop where
  distinct : (replies.map (·.id)).Nodup
  outstanding : ∀ reply ∈ replies, ∃ p expects tag, s.ledger.find? reply.id = some p ∧
    p.owner = .operation expects tag [] ∧ p.kind ≠ .openFile ∧ p.kind ≠ .unmount

theorem Independent.perm (h : s.Independent replies) (perm : replies.Perm others) :
    s.Independent others :=
  ⟨(perm.map _).nodup_iff.1 h.distinct, fun reply mem => h.outstanding reply (perm.mem_iff.2 mem)⟩

theorem Independent.addressed {s₀ : State} (h : s.Independent replies) (start : Start s₀)
    (reached : Reaches s₀ s) : ∀ reply ∈ replies, s.Addressed reply := by
  intro reply mem
  obtain ⟨p, expects, tag, found, owner, opening, unmounting⟩ := h.outstanding reply mem
  obtain ⟨steps, course⟩ := reached.exists_course
  obtain ⟨operation, v, m, content, -, -, request, kind, tag', followUp, parts, waits⟩ :=
    course.exists_request start (List.mem_of_find?_eq_some found) (by rw [owner]; rfl)
  rw [kind, (Operation.allowed_of_request request).1] at opening unmounting
  obtain ⟨rfl, -, -⟩ := Owner.operation.inj (owner.symm.trans waits)
  refine ⟨p, _, tag, found, owner, ?_⟩
  rw [Expectation.alone_collectAll]
  exact Operation.alone_expectation opening unmounting

/-! ## What callers are given -/

theorem Fate.callbacks_eq_of_mem {event : Event} (fate : s.Fate key)
    (mem : event ∈ s.callbacks key) : s.callbacks key = [event] := by
  rw [callbacks_eq] at mem ⊢
  cases fate with
  | nothing trace => simp [trace] at mem
  | outstanding _ entry => simp [entry] at mem
  | settled _ _ settled =>
    rcases settled.owed_or_paid with ⟨_, -, -, none⟩ | ⟨paid, -, -, one⟩
    · simp [none] at mem
    · rw [one, List.mem_singleton] at mem
      rw [one, mem]

/-- With no more than one thing to tell, the order does not matter. -/
theorem Fate.callbacks_eq_of_perm (fate : s.Fate key) (events : s.history.Perm t.history) :
    s.callbacks key = t.callbacks key := by
  have perm : (s.callbacks key).Perm (t.callbacks key) := events.filter _
  cases given : s.callbacks key with
  | nil =>
    rw [given] at perm
    exact perm.nil_eq
  | cons event rest =>
    have one := fate.callbacks_eq_of_mem (given ▸ List.mem_cons_self)
    rw [← given, one]
    rw [one] at perm
    exact (List.perm_singleton.1 perm.symm).symm

/-- What a caller is told is among what happens as the reply is worked off. -/
theorem done_mem_appliedEvents (found : s.ledger.find? reply.id = some p)
    (owner : p.owner = .operation expects tag []) :
    .done p.key tag (reply.content >>= expects.resolve) ∈ s.appliedEvents reply := by
  rw [appliedEvents, found]
  dsimp only
  rw [replyEvents, owner]
  simp

theorem callbacks_of_not_delivered (replies : List FinalReply) (key : RequestKey) :
    ({ s with
        history := replies.reverse.map (fun reply => .answered reply.call (.word .noManager)) ++
          s.history } : State).callbacks key = s.callbacks key := by
  rw [callbacks, callbacks, List.filter_append, List.filter_eq_nil_iff.2, List.nil_append]
  intro event mem
  obtain ⟨reply, -, rfl⟩ := List.mem_map.1 mem
  simp [Event.paid?]

/-! ## Any order -/

/-- In every state that a run of a mount comes to, and for any final replies to different requests
of operations, of which none opens a file or takes the mount down: if neither the callers nor the
observers start anything when they are told, then in whatever order the replies are delivered, each
is worked off, and the same is left, all of the ledger, the files, the ids and the timers.  The same
has happened, in another order, and each caller was given the same.  Unless the request manager is
out of reach, the requests have ended, and each caller was given what the reply makes of the
operation. -/
theorem replies_commute (reached : Reaches (ofMount settings link timersRun firstId horizon) s)
    (inert : s.Inert) (independent : s.Independent replies) (perm : replies.Perm others)
    (enough : s.observers.length + 7 ≤ fuel) :
    ∃ t u, s.deliverAll fuel replies = some t ∧ s.deliverAll fuel others = some u ∧
      u = { t with history := u.history } ∧ t.history.Perm u.history ∧
      (∀ key, t.callbacks key = u.callbacks key) ∧
      (s.managerHeld →
        t.ledger.entries = s.ledger.entries.filter (fun p => p.id ∉ replies.map (·.id)) ∧
        ∀ reply ∈ replies, ∃ p expects tag, s.ledger.find? reply.id = some p ∧
          p.owner = .operation expects tag [] ∧
          t.callbacks p.key = [.done p.key tag (reply.content >>= expects.resolve)]) := by
  have start : Start (ofMount settings link timersRun firstId horizon) := .mount ..
  have reversed : replies.reverse.Perm others.reverse :=
    (List.reverse_perm replies).trans (perm.trans (List.reverse_perm others).symm)
  cases held : s.managerHeld with
  | false =>
    refine ⟨_, _, deliverAll_of_not_held held (by omega), deliverAll_of_not_held held (by omega),
      rfl, (reversed.map _).append_right _, fun key => ?_, fun h => by cases h⟩
    rw [callbacks_of_not_delivered, callbacks_of_not_delivered]
  | true =>
    have independent' := independent.perm perm
    obtain ⟨t, ht, toT, left⟩ := deliverAll_of_held held inert independent.distinct
      (independent.addressed start reached) enough
    obtain ⟨u, hu, -, left'⟩ := deliverAll_of_held held inert independent'.distinct
      (independent'.addressed start reached) enough
    have same : replies.foldl applied s = others.foldl applied s :=
      foldl_applied_perm independent.distinct perm
    have events : t.history.Perm u.history := by
      rw [left, left']
      exact (reversed.flatMap_right _).append_right _
    have fate : ∀ key, t.Fate key := fun key =>
      (reached.trans toT).fate start.sane (start.fate key)
    refine ⟨t, u, ht, hu, ?_, events, fun key => (fate key).callbacks_eq_of_perm events,
      fun _ => ?_⟩
    · rw [left, left', same]
    · refine ⟨?_, fun reply mem => ?_⟩
      · rw [left]
        exact ledger_foldl_applied s replies
      · obtain ⟨p, expects, tag, found, owner, -⟩ := independent.outstanding reply mem
        refine ⟨p, expects, tag, found, owner, (fate p.key).callbacks_eq_of_mem ?_⟩
        rw [callbacks, List.mem_filter, left]
        refine ⟨List.mem_append_left _ (List.mem_flatMap.2
          ⟨reply, List.mem_reverse.2 mem, done_mem_appliedEvents found owner⟩), ?_⟩
        simp [Event.paid?]

/-- The provider has no entry for a caller, and closes a file for another: both replies may come
first. -/
theorem replies_commute_of_close :
    ∃ s t u : State, Reaches (ofMount
        { info := { providerId := "p", fileSystemId := "f", displayName := "d", writable := true } }
        (.direct {}) true) s ∧ s.ledger.entries.map (·.kind) = [.getMetadata, .closeFile] ∧
      s.deliverAll 8 [⟨⟨3⟩, .error .notFound⟩, ⟨⟨4⟩, .ok .nothing⟩] = some t ∧
      s.deliverAll 8 [⟨⟨4⟩, .ok .nothing⟩, ⟨⟨3⟩, .error .notFound⟩] = some u ∧
      u = { t with history := u.history } ∧ t.ledger.entries = [] ∧
      u.callbacks ⟨⟨3⟩, 2⟩ = [.done ⟨⟨3⟩, 2⟩ none (.error .notFound)] ∧
      u.callbacks ⟨⟨4⟩, 3⟩ = [.done ⟨⟨4⟩, 3⟩ none (.ok .nothing)] := by
  obtain ⟨s, p, q, hs, kinds, held, script, observers, found, found', keys, own, own'⟩ :
      ∃ s p q, (ofMount
      { info := { providerId := "p", fileSystemId := "f", displayName := "d", writable := true } }
      (.direct {}) true).follow?
        (.call (.operate (.openFile "/a" .read) none []) ⟨0⟩ :: List.replicate 7 .work ++
          .call (.deliver (.given ⟨1⟩) (.success .nothing)) ⟨0⟩ :: List.replicate 8 .work ++
          .call (.operate (.getMetadata "/b") none []) ⟨0⟩ :: List.replicate 7 .work ++
          .call (.operate (.closeFile ⟨2⟩) none []) ⟨0⟩ :: List.replicate 7 .work) = some s ∧
      s.ledger.entries = [p, q] ∧ s.managerHeld = true ∧ s.finishScript = [] ∧
      s.observers = [.canceller] ∧ s.ledger.find? ⟨3⟩ = some p ∧ s.ledger.find? ⟨4⟩ = some q ∧
      (p.key = ⟨⟨3⟩, 2⟩ ∧ q.key = ⟨⟨4⟩, 3⟩ ∧ p.kind = .getMetadata ∧ q.kind = .closeFile) ∧
      p.owner = .operation .metadata none [] ∧ q.owner = .operation (.closing ⟨2⟩) none [] :=
    ⟨_, _, _, rfl, rfl, rfl, rfl, rfl, rfl, rfl, ⟨rfl, rfl, rfl, rfl⟩, rfl, rfl⟩
  obtain ⟨key, key', kind, kind'⟩ := keys
  have reached := reaches_of_follow? hs
  have inert : s.Inert := ⟨script, by simp [observers, Observer.silent]⟩
  have independent : s.Independent [⟨⟨3⟩, .error .notFound⟩, ⟨⟨4⟩, .ok .nothing⟩] := by
    refine ⟨by decide, ?_⟩
    rintro reply mem
    rcases List.mem_pair.1 mem with rfl | rfl
    · exact ⟨p, _, none, found, own, by simp [kind]⟩
    · exact ⟨q, _, none, found', own', by simp [kind']⟩
  have enough : s.observers.length + 7 ≤ 8 := by
    rw [observers]
    decide
  obtain ⟨t, u, ht, hu, same, -, given, ended⟩ :=
    replies_commute reached inert independent (List.Perm.swap ..) enough
  obtain ⟨left, told⟩ := ended held
  refine ⟨s, t, u, reached, by rw [kinds, List.map_cons, List.map_cons, kind, kind']; rfl, ht, hu,
    same, ?_, ?_, ?_⟩
  · obtain ⟨id, -⟩ := RequestKey.mk.inj key
    obtain ⟨id', -⟩ := RequestKey.mk.inj key'
    rw [left, kinds]
    simp [id, id']
  · obtain ⟨_, _, _, there, waits, one⟩ := told _ List.mem_cons_self
    obtain rfl := Option.some.inj (found.symm.trans there)
    rw [own] at waits
    cases waits
    rw [← given, ← key]
    exact one
  · obtain ⟨_, _, _, there, waits, one⟩ := told _ (List.mem_cons_of_mem _ List.mem_cons_self)
    obtain rfl := Option.some.inj (found'.symm.trans there)
    rw [own'] at waits
    cases waits
    rw [← given, ← key']
    exact one

end State

end FileRelay
