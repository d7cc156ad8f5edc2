import FileRelay.Proofs.HandOver
import FileRelay.Proofs.Shutdown

/-!
# Unmounting

The caller of an unmount is told that it was granted when nothing is left of the mount, and when
the callers of all operations that were outstanding as the provider's reply came have been told
their results.  The mount is taken down ahead of that callback, or has been already; and what is
ahead on the agenda is done first, whatever shutdowns and callbacks it holds.  An unmount that ends
in any other way leaves the mount as it is.

Between setting out to take a mount down and doing so nothing is invoked that could call back into
the library: no callback, observer or hook runs there, nor the provider's end.  A run in which
nobody makes a call at such a moment is *orderly*.  Only another thread could, and have an unmount
completed while the mount is out of use already, but not down yet.
-/

namespace FileRelay.State

variable {s₀ b s t u v w x y z : State} {task : Task} {front next rest : List Task}
  {key : RequestKey} {p q : Pending} {ending : Ending} {tag : Option String}
  {followUp : List Call} {aborted : Nat} {steps before after : List State}
  {settings : MountSettings} {link : Link} {timersRun : Bool} {firstId : UInt32} {horizon : Nat}

/-! ## Orderly runs -/

/-- A run, with the states in which a task was done, in which nobody makes a call between setting
out to take the mount down and doing so. -/
inductive Orderly (s : State) : List State → State → Prop
  | start : Orderly s [] s
  | work {steps : List State} {t u : State} (h : Orderly s steps t) (step : t.step = some u)
      (fair : ¬ t.Trespasses) : Orderly s (steps ++ [t]) u
  | call {steps : List State} {t : State} (h : Orderly s steps t)
      (clear : ∀ rest, t.agenda ≠ .takeDown :: rest) (call : Call) (self : RequestId) :
      Orderly s steps (t.push [.issue call self])
  | rewind {steps : List State} {t : State} (h : Orderly s steps t) (n : UInt32) :
      Orderly s steps { t with pool := t.pool.rewind n }

theorem Orderly.course (h : Orderly s steps t) : Course s steps t := by
  induction h with
  | start => exact .start
  | work _ step fair ih => exact ih.work step fair
  | call _ _ call self ih => exact ih.call call self
  | rewind _ n ih => exact ih.rewind n

/-- A mount that goes out of use is taken down next. -/
theorem Effect.inUse_or_takeDown (h : Effect b task { b with agenda := rest } t)
    (ha : b.agenda = task :: rest) (inUse : b.mount?.isSome) :
    t.mount?.isSome ∨ ∃ rest, t.agenda = .takeDown :: rest := by
  cases h with
  | change _ stays h =>
    rw [h.stays.2, (stays_of_pop ha stays).2]
    exact .inl inUse
  | settle h pass k =>
    rw [k.stays.2, pass.stays.2, h.stays.2, (stays_of_pop ha pass.leaves_eq_false).2]
    exact .inl inUse
  | keepManager | dropManager =>
    rw [← inUse]
    exact .inl (inUse_congr rfl (by rw [ha]; rfl))
  | keepMount inUse => exact .inl inUse
  | dropMount => exact .inr ⟨_, rfl⟩

/-- In an orderly run a mount that is up is in use, or is taken down next. -/
theorem Orderly.inUse_or_takeDown (start : Start s₀) (h : Orderly s₀ steps t) (up : t.up) :
    t.mount?.isSome ∨ ∃ rest, t.agenda = .takeDown :: rest := by
  induction h with
  | start =>
    refine (start.upkeep.attended up).imp_right ?_
    rintro ⟨front, back, ha, -⟩
    cases start <;> simp [ofManager, ofMount, note, emit] at ha
  | @work steps t u h step fair ih =>
    have sane := h.course.sane start
    obtain ⟨task, rest, ha, e⟩ := sane.upkeep.exists_effect fair step
    rcases ih (e.up_of_up up) with inUse | ⟨rest', first⟩
    · exact e.inUse_or_takeDown ha inUse
    · rw [step_of_agenda first, Option.some.injEq] at step
      rw [← step] at up
      exact (Bool.false_ne_true ((up_takeDown _).symm.trans up)).elim
  | call _ clear call self ih =>
    rcases ih up with inUse | ⟨rest, first⟩
    · exact .inl (inUse_push inUse _)
    · exact (clear rest first).elim
  | rewind _ n ih => exact ih up

theorem Orderly.trans (h : Orderly s before t) (k : Orderly t after u) :
    Orderly s (before ++ after) u := by
  induction k with
  | start =>
    rw [List.append_nil]
    exact h
  | work _ step fair ih =>
    rw [← List.append_assoc]
    exact ih.work step fair
  | call _ clear call self ih => exact ih.call clear call self
  | rewind _ n ih => exact ih.rewind n

/-- Whether a run that goes on in some given ways is orderly. -/
def orderly? (s : State) : List Choice → Bool
  | [] => true
  | choice :: rest =>
    !(choice matches .call .. && s.agenda.head? matches some .takeDown) &&
      (s.take? choice).all (·.orderly? rest)

theorem orderly_of_follow? {choices : List Choice} (h : s.follow? choices = some t)
    (ok : s.orderly? choices) : Orderly s (s.trail choices) t := by
  induction choices generalizing s with
  | nil =>
    cases h
    exact .start
  | cons choice choices ih =>
    rw [follow?, Option.bind_eq_some_iff] at h
    obtain ⟨u, hu, h⟩ := h
    simp only [trail, hu]
    cases choice with
    | work =>
      simp only [orderly?, hu, Option.all_some, Bool.and_eq_true] at ok
      rw [take?] at hu
      split at hu
      · cases hu
      · rename_i fair
        have worked : Orderly s [s] u := .work .start hu fun ht => fair (trespasses?_iff.2 ht)
        exact worked.trans (ih h ok.2)
    | call call self =>
      simp only [orderly?, hu, Option.all_some, Bool.and_eq_true] at ok
      cases hu
      refine Orderly.trans (.call .start ?_ call self) (ih h ok.2)
      intro rest first
      simp [first] at ok
    | rewind n =>
      simp only [orderly?, hu, Option.all_some, Bool.and_eq_true] at ok
      cases hu
      exact Orderly.trans (.rewind .start n) (ih h ok.2)

theorem Orderly.inUse_of_mem (start : Start s₀) (h : Orderly s₀ steps t) (mem : x ∈ steps)
    (up : x.up) : x.mount?.isSome ∨ ∃ rest, x.agenda = .takeDown :: rest := by
  induction h with
  | start => cases mem
  | work h _ _ ih =>
    rcases List.mem_append.1 mem with mem | mem
    · exact ih mem
    · rw [List.mem_singleton.1 mem] at up ⊢
      exact h.inUse_or_takeDown start up
  | call _ _ _ _ ih => exact ih mem
  | rewind _ _ ih => exact ih mem

/-! ## Ending one request -/

/-- A delivery that ends a request takes just that out of the ledger. -/
theorem ledger_deliver {id : RequestId} {delivery : Delivery} (same : u.ledger = s.ledger)
    (found : s.ledger.find? id = some p) (ends : delivery.ending? = some ending) :
    (u.deliver id delivery).ledger = s.ledger.erase p.id := by
  rw [← same] at found ⊢
  cases delivery with
  | part => cases ends
  | success | error =>
    simp only [State.deliver, found]
    rfl

/-- A step that ends one request takes just that out of the ledger. -/
theorem Ends.ledger (h : x.Ends y p ending) (hs : x.Sane) (one : ending ≠ .shutDown) :
    y.ledger = x.ledger.erase p.id := by
  obtain ⟨task, rest, ha, ends⟩ := h.task
  have step := h.step
  rw [step_of_agenda ha, Option.some.injEq] at step
  have found := hs.accounted.find?_of_findExact? h.before
  -- A step that leaves the ledger as it is does not end the request.
  have gone : y.ledger ≠ x.ledger := by
    intro same
    have after := h.after
    rw [same, h.before] at after
    cases after
  cases task with
  | issue call self =>
    change State.issue { x with agenda := rest } call self = y at step
    cases call with
    | deliver ref delivery =>
      rw [Task.ending?, Option.ite_none_right_eq_some] at ends
      obtain ⟨hid, ends⟩ := ends
      rw [State.issue, State.withManager] at step
      split at step
      · rw [← step]
        exact ledger_deliver rfl (hid ▸ found) ends
      · exact (gone (step ▸ rfl)).elim
    | abort ref =>
      rw [Task.ending?, Option.ite_none_right_eq_some] at ends
      rw [State.issue, State.withManager, ends.1] at step
      split at step
      · have found' : ({ x with agenda := rest } : State).ledger.find? p.id = some p := found
        rw [← step, found']
        rfl
      · exact (gone (step ▸ rfl)).elim
    | abortSlot slot =>
      rw [Task.ending?, Option.ite_none_right_eq_some] at ends
      have slot' : ({ x with agenda := rest } : State).slots[slot]? = some p.key := ends.1
      have found' : ({ x with agenda := rest } : State).ledger.findExact? p.key = some p := h.before
      rw [State.issue, slot'] at step
      dsimp only at step
      rw [← step, found']
      rfl
    | timeOut ref =>
      rw [Task.ending?, Option.ite_none_right_eq_some] at ends
      rw [State.issue, State.withManager, ends.1] at step
      split at step
      · have found' : ({ x with agenda := rest } : State).ledger.find? p.id = some p := found
        rw [← step, found']
        rfl
      · exact (gone (step ▸ rfl)).elim
    | shutDownRequests =>
      cases ends
      exact (one rfl).elim
    | _ => cases ends
  | elapse time =>
    change State.elapse { x with agenda := rest } time = y at step
    rw [Task.ending?, Option.ite_none_right_eq_some, Option.map_eq_some_iff] at ends
    obtain ⟨⟨timer, due, own⟩, -⟩ := ends
    unfold State.elapse at step
    split at step
    · have due' : ({ x with agenda := rest } : State).timers.due? time = some timer := due
      rw [due'] at step
      dsimp only at step
      have found' : x.ledger.findExact? timer.request = some p := own ▸ h.before
      rw [found'] at step
      rw [← step]
      rfl
    · exact (gone (step ▸ rfl)).elim
  | poll =>
    change State.poll { x with agenda := rest } = y at step
    rw [Task.ending?] at ends
    split at ends
    · rename_i message _ _ _ _ _ hc
      rw [Option.ite_none_right_eq_some] at ends
      have hc' : ({ x with agenda := rest } : State).channel? = x.channel? := rfl
      rw [State.poll, hc', hc] at step
      dsimp only at step
      split at step
      · rw [← step]
        exact ledger_deliver rfl (ends.1 ▸ found) ends.2
      · exact (gone (step ▸ rfl)).elim
    · cases ends
  | verdict request =>
    change State.verdict { x with agenda := rest } request = y at step
    rw [Task.ending?, Option.ite_none_right_eq_some, Option.map_eq_some_iff] at ends
    obtain ⟨hid, failure, refused, rfl⟩ := ends
    have refused' : ({ x with agenda := rest } : State).deliverError? = some failure := refused
    rw [State.verdict, refused'] at step
    rw [← step]
    exact ledger_deliver rfl (hid ▸ found)
      (show (Delivery.error failure).ending? = some (.rejected failure) from rfl)
  | takeDown =>
    cases ends
    exact (one rfl).elim
  | _ => cases ends

theorem Ends.files (h : x.Ends y p ending) (hs : x.Sane) : y.openFiles = x.openFiles := by
  obtain ⟨task, rest, ha, ends⟩ := h.task
  obtain ⟨task', rest', ha', deed⟩ := hs.exists_deed h.step
  obtain ⟨rfl, rfl⟩ := List.cons.inj (ha.symm.trans ha')
  cases deed with
  | calm _ _ h => exact h.files
  | create _ _ _ _ files => exact files
  | take _ _ _ _ _ _ _ files => exact files
  | operate | pass | resume | complete | closeFiles => cases ends

theorem Ends.up (h : x.Ends y p ending) (hs : x.Sane) (one : ending ≠ .shutDown) :
    y.up = x.up := by
  cases down : y.up with
  | true => exact (h.next.up_of_up hs down).symm
  | false =>
    by_contra up
    have up : x.up = true := by simpa using Ne.symm up
    obtain ⟨rest, first⟩ := hs.takeDown_of_down h.step up down
    obtain ⟨task, rest', ha, ends⟩ := h.task
    obtain ⟨rfl, -⟩ := List.cons.inj (first.symm.trans ha)
    cases ends
    exact one rfl

/-- A step that ends one request keeps all others. -/
theorem Ends.mem_iff (h : x.Ends y p ending) (hs : x.Sane) (one : ending ≠ .shutDown)
    (other : q.key ≠ p.key) : q ∈ y.ledger.entries ↔ q ∈ x.ledger.entries := by
  rw [h.ledger hs one, Ledger.erase, List.mem_filter]
  refine and_iff_left_of_imp fun mem => ?_
  rw [decide_eq_true_eq]
  intro hid
  obtain ⟨mem', -⟩ := mem_of_findExact? h.before
  exact other (congrArg Pending.key (hs.accounted.eq_of_id mem' mem hid))

/-! ## While a mount is being taken down -/

/-- Nobody is given anything for a request that was shut down. -/
theorem error_of_carries {result : Except Failure Value}
    (h : (Task.done key tag result followUp).Carries q .shutDown) : result = .error .shutdown := by
  generalize ht : Task.done key tag result followUp = task at h
  cases h with
  | finish | complete => cases ht
  | done _ gives =>
    cases ht
    exact Expectation.eq_error_of_gives gives rfl

/-- A task that owes a callback carries on how its request ended. -/
theorem carries_of_mem (settled : (s.trace key).Settled q ending) (mem : task ∈ s.agenda)
    (owed : task.owed? = some key) : task.Carries q ending := by
  have shows : task ∈ (s.trace key).owed := List.mem_filter.2 ⟨mem, by simpa using owed⟩
  generalize s.trace key = trace at settled shows
  cases settled with
  | owed carries => exact List.mem_singleton.1 shows ▸ carries
  | paid => cases shows

/-- As long as the files are yet to be forgotten, an operation whose callback is owed ahead of that
was shut down. -/
theorem Course.shutDown_of_ahead (course : Course w (before ++ x :: after) u) (hw : w.Sane)
    (fate : ∀ key, w.Fate key) (entry : w.trace q.key = { outstanding := [q] })
    (operation : q.owner.isOperation) (first : x.agenda = .takeDown :: next)
    (ahead : u.agenda = front ++ .closeFiles aborted :: next) (mem : task ∈ front)
    (owed : task.owed? = some q.key) : ∃ r, task.Carries r .shutDown := by
  have hmem : task ∈ u.agenda := by simp [ahead, mem]
  obtain ⟨z, toX, step, fair, fromZ⟩ := course.split
  have hx := toX.reaches.sane hw
  have hn : Next x z := .work step fair
  have known := ((fate q.key).of_mem (mem_of_trace (congrArg Trace.outstanding entry)).1).1
  have known' := Nat.lt_of_lt_of_le known (toX.reaches.nextSerial_le hw)
  rcases toX.life hw known entry with ⟨r, same, still⟩ |
    ⟨_, _, _, _, r, ending, -, -, -, -, same, -, settled⟩ | ⟨client, -⟩
  · -- It was outstanding as the mount was taken down, which ended it.
    have operation' : r.owner.isOperation := by rw [same.owner.isOperation_eq, operation]
    rw [← same.key] at still known' owed
    rcases hn.turn hx known' still with ⟨r', same', still'⟩ | ⟨ending, ends, settled⟩ | ⟨client, -⟩
    · have down : z.up = false := by
        rw [step_of_agenda first, Option.some.injEq] at step
        rw [← step]
        exact up_takeDown _
      have client := (hn.sane hx).idle_of_down down r'
        (mem_of_trace (congrArg Trace.outstanding still')).1
      rw [same'.owner.isOperation_eq, operation'] at client
      cases client
    · obtain ⟨task', rest, ha, ends'⟩ := ends.task
      obtain ⟨rfl, -⟩ := List.cons.inj (first.symm.trans ha)
      cases ends'
      exact ⟨r, carries_of_mem (fromZ.reaches.settled (hn.sane hx)
        (Nat.lt_of_lt_of_le known' (hn.nextSerial_le hx)) settled) hmem owed⟩
    · rw [operation'] at client
      cases client
  · -- Its callback was owed behind what took the mount down, and so behind the files.
    exfalso
    have fateX := toX.reaches.fate hw (fate q.key)
    have fateU := course.reaches.fate hw (fate q.key)
    have shows : task ∈ (u.trace q.key).owed :=
      List.mem_filter.2 ⟨hmem, by simpa using owed⟩
    rw [← same.key] at settled fateX shows owed fateU known'
    have reached : Reaches x u := .head hn fromZ.reaches
    have still : (x.trace r.key).owed ≠ [] := by
      intro none
      rw [reached.not_owed hx fateX known' settled none] at shows
      cases shows
    obtain ⟨other, mem'⟩ := List.exists_mem_of_ne_nil _ still
    obtain ⟨hother, owed'⟩ := List.mem_filter.1 mem'
    rw [decide_eq_true_eq] at owed'
    rw [first] at hother
    rcases List.mem_cons.1 hother with rfl | behind
    · cases owed'
    · obtain ⟨front', middle, rfl⟩ := List.append_of_mem mem
      rw [List.append_assoc, List.cons_append] at ahead
      exact (fateU.not_mem_back ahead owed).2 other (by simp [behind]) owed'
  · rw [operation] at client
    cases client

/-! ## The end of an unmount -/

/-- An unmount is granted by a reply that carries nothing. -/
theorem granted_of_gives {value : Value} (h : Expectation.unmounting.Gives ending (.ok value)) :
    ending = .completed .nothing ∧ value = .nothing := by
  cases ending with
  | completed reply =>
    cases reply with
    | nothing =>
      cases h
      exact ⟨rfl, rfl⟩
    | metadata | listing | data => cases h
  | rejected | aborted | timedOut | shutDown => cases h

/-- A callback that is next is not owed once more behind anything. -/
theorem Fate.owed?_ne_behind {first behind : Task} {back : List Task} (fate : s.Fate key)
    (ha : s.agenda = first :: rest) (owed : first.owed? = some key)
    (ahead : s.agenda = front ++ task :: back) (mem : behind ∈ back) : behind.owed? ≠ some key := by
  have first_of_all : s.agenda = [] ++ first :: rest := ha
  refine (fate.not_mem_back first_of_all owed).2 behind ?_
  rw [ha] at ahead
  cases front with
  | nil => exact (List.cons.inj ahead).2 ▸ mem
  | cons _ front =>
    rw [(List.cons.inj ahead).2]
    simp [mem]

/-- A run from the call of an unmount on, in which it is granted: its request is registered, and
completed in one of the steps, and by the end its callback is next. -/
structure Unmounts (w : State) (before : List State) (r : State) (after : List State) (x : State)
    (p q : Pending) : Prop where
  course : Course w (before ++ r :: after) x
  sane : w.Sane
  fate : ∀ key, w.Fate key
  up : w.up
  entry : w.trace q.key = { outstanding := [q] }
  own : p.key = q.key
  same : q.Continues p
  owner : ∃ tag followUp, p.owner = .operation .unmounting tag followUp
  granted : ∃ rest, r.agenda = .complete p (.completed .nothing) :: rest
  inUse : r.up → r.mount?.isSome
  told : ∃ tag value followUp rest, x.agenda = .done q.key tag (.ok value) followUp :: rest

theorem Unmounts.tornDown {r : State} (h : Unmounts w before r after x p q) :
    TornDown (before ++ r :: after) := by
  obtain ⟨tag, followUp, owner⟩ := h.owner
  obtain ⟨rest, granted⟩ := h.granted
  obtain ⟨tag', value, followUp', rest', told⟩ := h.told
  obtain ⟨y, toR, step, fair, fromR⟩ := h.course.split
  have operation : q.owner.isOperation := by
    rw [← h.same.owner.isOperation_eq, owner]
    rfl
  have saneY : y.Sane := (Next.work step fair).sane (toR.reaches.sane h.sane)
  -- What is ahead of the callback that the completion set is done by the end.
  have passed : ∀ {front back : List Task} {task : Task},
      .done p.key tag (.ok .nothing) followUp ∈ back → x.agenda ≠ front ++ task :: back :=
    fun mem ahead => (h.course.reaches.fate h.sane (h.fate q.key)).owed?_ne_behind told rfl ahead
      mem (congrArg some h.own)
  cases inUse : r.mount?.isSome with
  | true =>
    have sets : r.SetsOut (.leaveMount :: .done p.key tag (.ok .nothing) followUp :: rest) :=
      .unmount granted owner inUse
    have next : y.agenda = [] ++ _ :: _ := sets.agenda step
    rcases fromR.ahead_or_done saneY next with
      ⟨front, ahead⟩ | ⟨first, z, last, rfl, hz⟩
    · exact (passed (by simp) ahead).elim
    · by_cases up : z.up
      · rcases fromR.closes_or_tornDown saneY up hz with ⟨front, aborted, ahead⟩ | torn
        · exact (passed (by simp) ahead).elim
        · exact (torn.after_step first z).after_step before r
      · obtain ⟨-, toZ, -⟩ := fromR.split
        have toZ : Course w (before ++ [r] ++ first) z := (toR.work step fair).trans toZ
        obtain ⟨first', d, last', next, cut, upD, hd⟩ :=
          toZ.exists_takeDown h.sane h.up (by simpa using up)
        rw [cut] at toZ
        rcases toZ.closes_or_tornDown h.sane upD hd with ⟨front, aborted, ahead⟩ | torn
        · have mem : .done p.key tag (.ok .nothing) followUp ∈ front := by
            rw [hz] at ahead
            rcases front with _ | ⟨_, _ | ⟨_, _ | ⟨_, front⟩⟩⟩ <;> simp at ahead
            simp [ahead.2.2.1]
          obtain ⟨q', carries⟩ := toZ.shutDown_of_ahead h.sane h.fate h.entry operation hd ahead mem
            (congrArg some h.own)
          cases error_of_carries carries
        · have torn := cut ▸ torn.after_step first' d
          simpa using torn.append (z :: last)
  | false =>
    have down : r.up = false := by
      by_contra up
      rw [h.inUse (by simpa using up)] at inUse
      cases inUse
    obtain ⟨first, d, last, next, rfl, upD, hd⟩ := toR.exists_takeDown h.sane h.up down
    rcases toR.closes_or_tornDown h.sane upD hd with ⟨front, aborted, ahead⟩ | torn
    · cases front with
      | nil =>
        rw [granted] at ahead
        cases ahead
      | cons task front =>
        have first := (List.cons.inj (granted.symm.trans ahead)).1
        obtain ⟨q', carries⟩ := toR.shutDown_of_ahead h.sane h.fate h.entry operation hd ahead
          (show task ∈ task :: front from List.mem_cons_self)
          (by rw [← first]; exact congrArg some h.own)
        rw [← first] at carries
        cases carries
    · exact (torn.after_step first d).append _

/-- The caller of an operation has been told its result, after one of the steps ended its request:
that the mount has gone down, if that was what ended it. -/
def Answered (steps : List State) (x : State) (q : Pending) : Prop :=
  ∃ z ∈ steps, ∃ z' p ending expects tag followUp result, z.Ends z' p ending ∧ q.Continues p ∧
    p.owner = .operation expects tag followUp ∧ expects.Gives ending result ∧
    x.callbacks q.key = [.done q.key tag result] ∧
    ((∃ rest, z.agenda = .takeDown :: rest) → result = .error .shutdown)

/-- Whoever is owed nothing any more, has been answered. -/
theorem Course.answered (course : Course s steps x) (hs : s.Sane) (fate : s.Fate q.key)
    (mem : q ∈ s.ledger.entries) (operation : q.owner.isOperation) (gone : x.Gone)
    (none : (x.trace q.key).owed = []) : Answered steps x q := by
  obtain ⟨known, entry⟩ := fate.of_mem mem
  rcases course.life hs known entry with ⟨r, same, still⟩ |
    ⟨before, z, after, z', p, ending, rfl, -, ends, -, same, -, settled⟩ | ⟨client, -⟩
  · have idle := gone.idle r (mem_of_trace (congrArg Trace.outstanding still)).1
    rw [same.owner.isOperation_eq, operation] at idle
    cases idle
  · rcases settled.owed_or_paid with ⟨task, -, owed, -⟩ | ⟨event, reports, -, paid⟩
    · rw [none] at owed
      cases owed
    · cases reports with
      | client owner =>
        rw [← same.owner.isOperation_eq, owner] at operation
        cases operation
      | @operation expects tag followUp result owner gives =>
        refine ⟨z, by simp, z', p, ending, expects, tag, followUp, result, ends, same, owner, gives,
          ?_, ?_⟩
        · rw [callbacks_eq, paid, same.key]
        · rintro ⟨rest, first⟩
          obtain ⟨task, rest', ha, ends'⟩ := ends.task
          obtain ⟨rfl, -⟩ := List.cons.inj (first.symm.trans ha)
          cases ends'
          exact Expectation.eq_error_of_gives gives rfl
  · rw [operation] at client
    cases client

/-- By the time that the caller of an unmount is told that it was granted, all operations have been
answered that were outstanding as the provider's reply came. -/
theorem Unmounts.answered {r : State} (h : Unmounts w before r after x p q) (gone : x.Gone) :
    ∃ first e last e', before = first ++ e :: last ∧ e.Ends e' p (.completed .nothing) ∧
      ∀ other ∈ e.ledger.entries, other.owner.isOperation → other.key ≠ q.key →
        Answered (last ++ r :: after) x other := by
  obtain ⟨rest, granted⟩ := h.granted
  obtain ⟨tag', value, followUp', rest', told⟩ := h.told
  obtain ⟨y, toR, step, fair, fromR⟩ := h.course.split
  have known := ((h.fate q.key).of_mem (mem_of_trace (congrArg Trace.outstanding h.entry)).1).1
  have shows := ((toR.reaches.fate h.sane (h.fate q.key)).carries granted (congrArg some h.own)).1
  have owed := ((h.course.reaches.fate h.sane (h.fate q.key)).carries told rfl).1
  rcases toR.life h.sane known h.entry with ⟨r', -, still⟩ |
    ⟨first, e, last, e', q', ending, rfl, toE, ends, fromE, same, left, settled⟩ | ⟨-, -, nothing⟩
  · rw [shows] at still
    cases still
  · rw [shows] at settled
    cases settled with
    | owed carries =>
      cases carries
      refine ⟨first, e, last, e', rfl, ends, ?_⟩
      intro other mem operation ne
      have sane := toE.reaches.sane h.sane
      have sane' := ends.next.sane sane
      have fate' : ∀ key, e'.Fate key := fun key =>
        ends.next.fate sane (toE.reaches.fate h.sane (h.fate key))
      have toX : Course e' (last ++ [r] ++ after) x := (fromE.work step fair).trans fromR
      have mem' := (ends.mem_iff sane nofun (h.own ▸ ne)).2 mem
      refine List.append_cons last r after ▸
        toX.answered sane' (fate' _) mem' operation gone ?_
      have known' : p.key.serial < e'.ledger.nextSerial := by
        rw [h.own]
        exact Nat.lt_of_lt_of_le (Nat.lt_of_lt_of_le known (toE.reaches.nextSerial_le h.sane))
          (ends.next.nextSerial_le sane)
      rw [← h.own] at left owed told ne
      have still : (e'.trace p.key).owed ≠ [] := by
        intro none
        have none := toX.reaches.not_owed sane' (fate' _) known' left none
        rw [owed] at none
        cases none
      have fateX := toX.reaches.fate sane' (fate' p.key)
      have none : (e'.trace other.key).owed = [] := by rw [((fate' _).of_mem mem').2]
      rcases toX.precedes sane' fate' known' left ne (precedes_of_not_owed none still) with
        precedes | none
      · exact precedes.not_owed fateX told rfl ne
      · rw [owed] at none
        cases none
  · rw [shows] at nothing
    cases nothing

/-! ## An unmount that is not granted -/

/-- A step belongs to the completion of a request that comes to its end in a given way: it ends the
request, brings its callback about, or tells the observers or the provider of the end. -/
inductive Concludes (s t : State) (p : Pending) (ending : Ending) : Prop
  | ends (h : s.Ends t p ending)
  | settles {task : Task} {rest : List Task} (first : s.agenda = task :: rest)
      (step : s.step = some t) (carries : task.Carries p ending)
  | tells {task : Task} {rest : List Task} (first : s.agenda = task :: rest)
      (step : s.step = some t) (mourned : task.mourned? = some p.key)
  | cancels {rest : List Task} (first : s.agenda = .cancelVerdict p.key :: rest)
      (step : s.step = some t)

/-- A step leaves alone whether the mount is up, its open files, and all outstanding requests but
one. -/
structure Spares (s t : State) (key : RequestKey) : Prop where
  up : t.up = s.up
  files : t.openFiles = s.openFiles
  others : ∀ q : Pending, q.key ≠ key → (q ∈ t.ledger.entries ↔ q ∈ s.ledger.entries)

theorem Spares.of_eq (up : t.up = s.up) (files : t.openFiles = s.openFiles)
    (ledger : t.ledger = s.ledger) : s.Spares t key :=
  ⟨up, files, fun q _ => by rw [ledger]⟩

/-- An unmount that is not granted leaves all as it is, but that its caller is to be told so. -/
theorem complete_of_refused (s : State)
    (owner : p.owner = .operation .unmounting tag followUp)
    (refused : ending ≠ .completed .nothing) :
    ∃ failure, s.complete p ending = s.push [.done p.key tag (.error failure) followUp] := by
  rw [State.complete, owner]
  cases ending with
  | completed reply =>
    cases reply with
    | nothing => exact (refused rfl).elim
    | metadata | listing | data => exact ⟨.invalidData, rfl⟩
  | rejected failure => exact ⟨failure, rfl⟩
  | aborted => exact ⟨.aborted, rfl⟩
  | timedOut => exact ⟨.timedOut, rfl⟩
  | shutDown => exact ⟨.shutdown, rfl⟩

theorem ledger_tell (s : State) (observer : Nat) (request : RequestKey) (moment : Moment) :
    (s.tell observer request moment).ledger = s.ledger := by
  unfold State.tell
  split
  · rfl
  · split
    · unfold State.cancel
      split
      · rfl
      · split
        · split <;> rfl
        · rfl
    · rfl
  · rfl
  · rfl

/-- The completion of an unmount that is not granted leaves the mount alone. -/
theorem Concludes.spares (h : x.Concludes y p ending) (hs : x.Sane)
    (owner : p.owner = .operation .unmounting tag followUp) (refused : ending ≠ .completed .nothing)
    (one : ending ≠ .shutDown) : x.Spares y p.key := by
  cases h with
  | ends h => exact ⟨h.up hs one, h.files hs, fun q other => h.mem_iff hs one other⟩
  | settles first step carries =>
    rw [step_of_agenda first, Option.some.injEq] at step
    subst step
    cases carries with
    | finish | done => exact .of_eq rfl rfl rfl
    | complete =>
      obtain ⟨failure, told⟩ := complete_of_refused { x with agenda := _ } owner refused
      show x.Spares (State.complete _ _ _) _
      rw [told]
      exact .of_eq rfl rfl rfl
  | @tells task rest first step mourned =>
    rw [step_of_agenda first, Option.some.injEq] at step
    subst step
    cases task with
    | announce => exact .of_eq rfl rfl rfl
    | tell observer request moment =>
      exact .of_eq (Steady.tell { x with agenda := rest } observer request moment).up
        (Calm.tell { x with agenda := rest } observer request moment).files
        (ledger_tell { x with agenda := rest } observer request moment)
    | _ => cases mourned
  | cancels first step =>
    rw [step_of_agenda first, Option.some.injEq] at step
    subst step
    show x.Spares (State.cancelVerdict _ _) _
    unfold State.cancelVerdict
    split <;> exact .of_eq rfl rfl rfl

/-! ## The order of an unmount -/

/-- What holds of the unmounts in a run, told with its steps. -/
structure UnmountsOrdered (steps : List State) : Prop where
  /-- When the caller of an unmount is told that it was granted, nothing is left of the mount, and
  all operations have been answered that were outstanding as the provider's reply came. -/
  granted : ∀ before x after v w key tag followUp tag' value followUp' rest,
    steps = before ++ x :: after → v ∈ before → v.Starts w .unmount tag followUp key →
    x.agenda = .done key tag' (.ok value) followUp' :: rest →
    x.Gone ∧ ∃ first e last e' p, before = first ++ e :: last ∧
      e.Ends e' p (.completed .nothing) ∧ p.key = key ∧
      ∀ q ∈ e.ledger.entries, q.owner.isOperation → q.key ≠ key → Answered last x q
  /-- All that belongs to the completion of an unmount that ends in an error, in a reply that does
  not fit, aborted or timed out leaves the mount alone. -/
  refused : ∀ x ∈ steps, ∀ y p ending tag followUp,
    p.owner = .operation .unmounting tag followUp → ending ≠ .completed .nothing →
    ending ≠ .shutDown → x.Concludes y p ending → x.Spares y p.key
  /-- The caller of such an unmount is told of an error, and nothing else happens as the request is
  completed. -/
  told : ∀ x ∈ steps, ∀ p ending tag followUp rest,
    p.owner = .operation .unmounting tag followUp → ending ≠ .completed .nothing →
    x.agenda = .complete p ending :: rest → ∃ failure,
      x.step = some { x with agenda := .done p.key tag (.error failure) followUp :: rest }

theorem Course.unmounts {before : List State} {tag' : Option String} {followUp' : List Call}
    {value : Value} (start : Start s₀) (toV : Course s₀ before v)
    (starts : v.Starts w .unmount tag followUp key) (fair : ¬ v.Trespasses)
    (fromW : Course w steps x) (ha : x.agenda = .done key tag' (.ok value) followUp' :: rest)
    (inUse : ∀ r ∈ steps, r.up → r.mount?.isSome ∨ ∃ rest, r.agenda = .takeDown :: rest) :
    ∃ first r last p q, steps = first ++ r :: last ∧ Unmounts w first r last x p q ∧
      q.key = key := by
  have hv := toV.sane start
  have next : Next v w := .work starts.step fair
  have toW : Course s₀ (before ++ [v]) w := toV.work starts.step fair
  obtain ⟨self, q, rfl, born, owner⟩ := starts.exists_bears hv (toV.fate start key)
  obtain ⟨first, r, last, y, p, ending, parts, rest', rfl, toR, -, -, hr, own, waits, gives⟩ :=
    toV.completed_of_starts start starts fair fromW ha
  rw [Operation.expectation, collectAll_of_whole rfl] at waits gives
  obtain ⟨rfl, -⟩ := granted_of_gives gives
  obtain ⟨same, -⟩ := toW.ended_of_complete start toR born.after hr own
  refine ⟨first, r, last, p, q, rfl, ?_, rfl⟩
  exact {
    course := fromW
    sane := next.sane hv
    fate := fun key => toW.fate start key
    up := by
      by_contra down
      obtain ⟨-, m, content, -, -, held, request, -⟩ := starts.accepted hv
      have alive := there_of_request held request
      rw [there, Bool.and_eq_true] at alive
      obtain ⟨rest, taken⟩ := hv.takeDown_of_down starts.step alive.2 (by simpa using down)
      obtain ⟨self, rest, called⟩ := starts.call
      rw [called] at taken
      cases taken
    entry := born.after
    own
    same
    owner := ⟨tag, followUp, waits⟩
    granted := ⟨rest', hr⟩
    inUse := by
      intro up
      refine (inUse r (by simp) up).resolve_right ?_
      rintro ⟨rest, taken⟩
      rw [hr] at taken
      cases taken
    told := ⟨tag', value, followUp', rest, ha⟩ }

/-- In every orderly run of a mount its unmounts are ordered: before the caller of one that was
granted is told so, the mount has been taken down and all other callers have been told; and one
that is not granted leaves the mount alone. -/
theorem unmounts_ordered
    (orderly : Orderly (ofMount settings link timersRun firstId horizon) steps s) :
    UnmountsOrdered steps := by
  have start : Start (ofMount settings link timersRun firstId horizon) :=
    .mount settings link timersRun firstId horizon
  have sane : ∀ x ∈ steps, x.Sane := by
    intro x mem
    obtain ⟨before, after, rfl⟩ := List.append_of_mem mem
    obtain ⟨-, toX, -⟩ := orderly.course.split
    exact toX.sane start
  constructor
  case granted =>
    rintro before x after v w key tag followUp tag' value followUp' rest rfl mem starts ha
    obtain ⟨-, toX, -⟩ := orderly.course.split
    obtain ⟨first, last, rfl⟩ := List.append_of_mem mem
    obtain ⟨w', toV, step, fair, fromW⟩ := toX.split
    obtain rfl : w = w' := Option.some.inj (starts.step.symm.trans step)
    obtain ⟨toR, r, fromR, p, q, rfl, unmounts, rfl⟩ := toV.unmounts start starts fair fromW ha
      fun r hr => orderly.inUse_of_mem start (by simp [hr])
    have gone := toX.gone start (unmounts.tornDown.after_step first v)
    obtain ⟨before, e, middle, e', rfl, ends, answered⟩ := unmounts.answered gone
    exact ⟨gone, first ++ v :: before, e, middle ++ r :: fromR, e', p, by simp, ends, unmounts.own,
      answered⟩
  case refused =>
    intro x mem y p ending tag followUp owner refused one concludes
    exact concludes.spares (sane x mem) owner refused one
  case told =>
    intro x mem p ending tag followUp rest owner refused ha
    obtain ⟨failure, told⟩ := complete_of_refused { x with agenda := rest } owner refused
    refine ⟨failure, ?_⟩
    rw [step_of_agenda ha]
    exact congrArg some told

/-- A mount with an open file and an operation outstanding is unmounted: when the caller is told
so, nothing is left of it. -/
theorem unmounts_ordered_of_one :
    ∃ steps s, Orderly (ofMount
        { info := { providerId := "p", fileSystemId := "f", displayName := "d" } }
        (.direct {}) true) steps s ∧
      ∃ x ∈ steps, (∃ key tag followUp rest,
        x.agenda = .done key tag (.ok .nothing) followUp :: rest) ∧ x.Gone := by
  let choices : List Choice :=
    .call (.operate (.openFile "/a" .read) none []) ⟨0⟩ :: List.replicate 7 .work ++
      .call (.deliver (.given ⟨1⟩) (.success .nothing)) ⟨0⟩ :: List.replicate 8 .work ++
      .call (.operate (.getMetadata "/a") none []) ⟨0⟩ :: List.replicate 7 .work ++
      .call (.operate .unmount none []) ⟨0⟩ :: List.replicate 7 .work ++
      .call (.deliver (.given ⟨4⟩) (.success .nothing)) ⟨0⟩ :: List.replicate 2 .work
  -- The unmount is granted, and nine steps after it is completed its callback is next.
  obtain ⟨r, x, p, rest, rest', hr, ok, completes, owner, own, hx, ok', told⟩ :
      ∃ r x p rest rest',
        (ofMount { info := { providerId := "p", fileSystemId := "f", displayName := "d" } }
          (.direct {}) true).follow? choices = some r ∧
        (ofMount { info := { providerId := "p", fileSystemId := "f", displayName := "d" } }
          (.direct {}) true).orderly? choices ∧
        r.agenda = .complete p (.completed .nothing) :: rest ∧
        p.owner = .operation .unmounting none [] ∧ p.key = ⟨⟨4⟩, 3⟩ ∧
        r.follow? (List.replicate 9 .work) = some x ∧ r.orderly? (List.replicate 9 .work) ∧
        x.agenda = .done ⟨⟨4⟩, 3⟩ none (.ok .nothing) [] :: rest' :=
    ⟨_, _, _, _, _, rfl, rfl, rfl, rfl, rfl, rfl, rfl, rfl⟩
  have toR := orderly_of_follow? hr ok
  have toX := toR.trans (orderly_of_follow? hx ok')
  obtain ⟨⟨v, mem, w, operation, starts, waits⟩, -⟩ :=
    toR.course.exists_starts (.mount _ _ true 1 _) completes owner rfl
  cases operation with
  | unmount =>
    have worked := toX.work (step_of_agenda told) (not_trespasses told (by simp))
    have gone := ((unmounts_ordered worked).granted _ x [] v w _ _ _ _ _ _ _ rfl (by simp [mem])
      (own ▸ starts) told).1
    exact ⟨_, _, worked, x, by simp, ⟨_, _, _, _, told⟩, gone⟩
  | _ => cases waits

end FileRelay.State
