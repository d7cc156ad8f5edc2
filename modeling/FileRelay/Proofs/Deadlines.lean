import FileRelay.Proofs.Expiry
import FileRelay.Proofs.Nesting

/-!
# Deadlines

In a run in which timers run, a request that is given a time is out of time exactly that long
after its time last started: when it was registered, or when a part of its reply was accepted, at a
clock time from which on its end can be held.  Until then one timer is armed for it, and the clock
does not pass its deadline.  Should nothing else end the request, the clock ends it there, and an
advance that gets there is not over before.  A timer whose request is gone does nothing.
-/

namespace FileRelay.State

variable {s₀ s t u v w x y : State} {steps earlier before after : List State} {task : Task}
  {back front rest : List Task} {p q : Pending} {horizon born time : Nat} {key : RequestKey}

/-! ## When a request is out of time -/

/-- The clock times at which the time of a request starts: that at which it is registered, and
those at which a part of its reply is accepted. -/
def startTimes (born : Nat) (key : RequestKey) (steps : List State) : List Nat :=
  born :: (steps.filter fun x => (x.accepts? key).isSome).map (·.clock)

/-- When a request is out of time: as long as it is given after the latest of these clock times
from which on the end can be held, which is before the horizon of the clock. -/
def dueTime? (horizon : Nat) (p : Pending) (born : Nat) (steps : List State) : Option Nat :=
  p.timeout.bind fun timeout =>
    ((startTimes born p.key steps).filter
      fun time => (deadline? horizon time timeout).isSome).max?.map (· + timeout)

theorem startTimes_wait (unaccepted : x.accepts? key = none) :
    startTimes born key (steps ++ [x]) = startTimes born key steps := by
  simp [startTimes, unaccepted]

theorem startTimes_restart (accepted : (x.accepts? key).isSome) :
    startTimes born key (steps ++ [x]) = startTimes born key steps ++ [x.clock] := by
  simp [startTimes, List.filter_append, accepted]

theorem deadline?_eq_some {now timeout due : Nat}
    (h : deadline? horizon now timeout = some due) : now + timeout = due := by
  unfold deadline? at h
  split at h
  · exact Option.some.inj h
  · cases h

theorem dueTime?_start :
    dueTime? horizon p born [] = p.timeout.bind (deadline? horizon born) := by
  unfold dueTime?
  refine congrArg p.timeout.bind (funext fun timeout => ?_)
  cases hd : deadline? horizon born timeout with
  | none => simp [startTimes, hd]
  | some due => simp [startTimes, hd, ← deadline?_eq_some hd]

theorem dueTime?_wait (unaccepted : x.accepts? p.key = none) :
    dueTime? horizon p born (steps ++ [x]) = dueTime? horizon p born steps := by
  rw [dueTime?, startTimes_wait unaccepted, dueTime?]

/-- The time of a request starts over, unless its end could not be held. -/
theorem dueTime?_restart (accepted : (x.accepts? p.key).isSome)
    (past : ∀ time ∈ startTimes born p.key steps, time ≤ x.clock) :
    dueTime? horizon p born (steps ++ [x]) =
      (p.timeout.bind (deadline? horizon x.clock) <|> dueTime? horizon p born steps) := by
  unfold dueTime?
  rw [startTimes_restart accepted]
  cases p.timeout with
  | none => rfl
  | some timeout =>
    simp only [Option.bind_some, List.filter_append]
    cases hd : deadline? horizon x.clock timeout with
    | none => simp [hd]
    | some due =>
      have latest : ((startTimes born p.key steps).filter
          (fun time => (deadline? horizon time timeout).isSome) ++ [x.clock]).max? =
            some x.clock := by
        rw [List.max?_eq_some_iff]
        refine ⟨by simp, ?_⟩
        intro time mem
        rcases List.mem_append.1 mem with mem | mem
        · exact past time (List.mem_filter.1 mem).1
        · exact Nat.le_of_eq (List.mem_singleton.1 mem)
      simp [hd, latest, ← deadline?_eq_some hd]

/-- Parts that are accepted never make a request be out of time earlier. -/
theorem dueTime?_mono {due : Nat} (h : dueTime? horizon p born before = some due)
    (after : List State) :
    ∃ later, dueTime? horizon p born (before ++ after) = some later ∧ due ≤ later := by
  rw [dueTime?, Option.bind_eq_some_iff] at h
  obtain ⟨timeout, given, h⟩ := h
  rw [Option.map_eq_some_iff] at h
  obtain ⟨start, latest, rfl⟩ := h
  have mem := (List.max?_eq_some_iff.1 latest).1
  have mem' : start ∈ (startTimes born p.key (before ++ after)).filter
      fun time => (deadline? horizon time timeout).isSome := by
    rw [List.mem_filter] at mem ⊢
    refine ⟨?_, mem.2⟩
    rw [startTimes, List.filter_append, List.map_append, ← List.cons_append]
    exact List.mem_append_left _ mem.1
  obtain ⟨last, latest'⟩ := Option.isSome_iff_exists.1 (List.isSome_max?_of_mem mem')
  refine ⟨last + timeout, ?_, ?_⟩
  · rw [dueTime?, given, Option.bind_some, latest', Option.map_some]
  · exact Nat.add_le_add_right ((List.max?_eq_some_iff.1 latest').2 start mem') timeout

/-! ## What every run keeps -/

/-- Timers run, and each of them is armed for a request that has been registered. -/
structure Ticking (s : State) : Prop where
  run : s.timersRun
  known : ∀ timer ∈ s.timers.armed, timer.request.serial < s.ledger.nextSerial

theorem Start.ticking (h : Start s) (run : s.timersRun) : s.Ticking := by
  cases h <;> exact ⟨run, by rintro timer ⟨⟩⟩

/-- How far the clock goes, and whether timers run, is settled when a run starts. -/
theorem Tick.platform (h : Tick { s with agenda := rest } task t) :
    t.horizon = s.horizon ∧ t.timersRun = s.timersRun := by
  cases h with
  | steady _ h => exact ⟨h.horizon, h.timersRun⟩
  | takeDown h => exact ⟨h.horizon, h.timersRun⟩
  | enter _ _ _ _ horizon run | take _ _ _ _ horizon run | drop _ horizon run =>
    exact ⟨horizon, run⟩
  | finish => exact ⟨rfl, rfl⟩
  | elapse time =>
    unfold State.elapse
    split
    · split
      · exact ⟨rfl, rfl⟩
      · dsimp only
        split <;> exact ⟨rfl, rfl⟩
    · exact ⟨rfl, rfl⟩

theorem Tick.ticking (h : Tick { s with agenda := rest } task t) (hs : s.Ticking)
    (le : s.ledger.nextSerial ≤ t.ledger.nextSerial)
    (known : ∀ p ∈ t.ledger.entries, p.serial < t.ledger.nextSerial) : t.Ticking := by
  refine ⟨h.platform.2.trans hs.run, fun timer mem => ?_⟩
  rcases h.rewound.armed mem with before | ⟨p, hp, own⟩
  · exact Nat.lt_of_lt_of_le (hs.known timer before) le
  · rw [← own]
    exact known p hp

theorem Next.horizon_eq (h : Next s t) (hs : s.Sane) : t.horizon = s.horizon := by
  cases h with
  | work step =>
    obtain ⟨task, rest, -, tick⟩ := hs.exists_tick step
    exact tick.platform.1
  | call | rewind => rfl

theorem Reaches.horizon_eq (h : Reaches s t) (hs : s.Sane) : t.horizon = s.horizon :=
  h.invariant (P := fun u => u.horizon = s.horizon) rfl fun _ _ reached next same =>
    (next.horizon_eq (reached.sane hs)).trans same

theorem Reaches.ticking (start : Start s₀) (run : s₀.timersRun) (h : Reaches s₀ s) : s.Ticking := by
  refine h.invariant (start.ticking run) fun u v reached next hu => ?_
  have sane := reached.sane start.sane
  cases next with
  | work step fair =>
    have next : Next u v := .work step fair
    obtain ⟨task, rest, ha, tick⟩ := sane.exists_tick step
    refine tick.ticking hu (next.nextSerial_le sane) fun p hp => ?_
    exact (((reached.tail next).fate start.sane (start.fate p.key)).of_mem hp).1
  | call call self => exact ⟨hu.run, hu.known⟩
  | rewind n => exact ⟨hu.run, hu.known⟩

/-- No timer is armed yet for a request that is still to be registered. -/
theorem Ticking.unarmed (h : s.Ticking) (new : s.ledger.nextSerial ≤ key.serial) :
    s.timers.of key = [] := by
  rw [List.eq_nil_iff_forall_not_mem]
  intro timer mem
  obtain ⟨armed, rfl⟩ := Timers.mem_of.1 mem
  exact Nat.not_lt_of_le new (h.known timer armed)

/-! ## Waiting -/

/-- An outstanding request waits for its deadline: it is the one that it should have, one timer is
armed for it, or none if there is no deadline, and the clock has not passed it. -/
structure Waits (horizon : Nat) (p : Pending) (born : Nat) (steps : List State) (u : State)
    (q : Pending) : Prop where
  timeout : q.timeout = p.timeout
  deadline : q.deadline = dueTime? horizon p born steps
  armed : u.timers.of p.key = ((dueTime? horizon p born steps).map (Timer.mk p.key)).toList
  ahead : ∀ due, dueTime? horizon p born steps = some due → u.clock ≤ due

/-- What holds of the time of a request from its registration on. -/
structure OnTime (horizon : Nat) (p : Pending) (born : Nat) (steps : List State) (u : State) :
    Prop where
  past : ∀ time ∈ startTimes born p.key steps, time ≤ u.clock
  waits : ∀ q, u.ledger.findExact? p.key = some q → Waits horizon p born steps u q

/-- Ids, tasks and events are of no concern. -/
theorem OnTime.of_eq (h : OnTime horizon p born steps u) (ledger : t.ledger = u.ledger)
    (timers : t.timers = u.timers) (clock : t.clock = u.clock) :
    OnTime horizon p born steps t := by
  refine ⟨clock ▸ h.past, fun q hq => ?_⟩
  rw [ledger] at hq
  have waits := h.waits q hq
  exact ⟨waits.timeout, waits.deadline, timers ▸ waits.armed, clock ▸ waits.ahead⟩

/-- However the clock moves on, it does not pass the deadline of a request that is still
outstanding. -/
theorem Elapsed.waits (h : Elapsed s time t) (hs : s.Accounted)
    (hq : t.ledger.findExact? key = some q) :
    s.ledger.findExact? key = some q ∧ t.timers.of key = s.timers.of key ∧
      ∀ timer ∈ s.timers.of key, s.clock ≤ timer.deadline → t.clock ≤ timer.deadline := by
  obtain ⟨mem, rfl⟩ := mem_of_findExact? hq
  have before := findExact?_of_mem hs (h.frame.2.2.2 q mem)
  refine ⟨before, ?_⟩
  cases h with
  | arrive due =>
    refine ⟨rfl, fun timer own le => Nat.max_le.2 ⟨le, ?_⟩⟩
    exact Nat.le_of_lt (Timers.due?_eq_none due timer (Timers.mem_of.1 own).1)
  | @idle first due gone =>
    have other : first.request ≠ q.key := by
      intro same
      rw [same, before] at gone
      cases gone
    refine ⟨Timers.of_stop other, fun timer own le => Nat.max_le.2 ⟨le, ?_⟩⟩
    exact (Timers.due?_eq_some due).2.2 timer (Timers.mem_of.1 own).1
  | @expire first p due found =>
    have other : first.request ≠ q.key := by
      intro same
      obtain rfl : q = p := Option.some.inj (before.symm.trans (same ▸ found))
      have erased := (List.mem_filter.1 mem).2
      simp at erased
    refine ⟨Timers.of_stop other, fun timer own le => Nat.max_le.2 ⟨le, ?_⟩⟩
    exact (Timers.due?_eq_some due).2.2 timer (Timers.mem_of.1 own).1

/-- A request whose time has started over waits for its new deadline. -/
theorem Waits.restart {r : Pending} (h : Waits x.horizon p born steps x r) (run : x.timersRun)
    (accepted : (x.accepts? p.key).isSome)
    (past : ∀ time ∈ startTimes born p.key steps, time ≤ x.clock) (clock : t.clock = x.clock)
    (timers : t.timers = x.timers.restart x.timersRun p.key
      (r.timeout.bind (deadline? x.horizon x.clock)))
    (timeout : q.timeout = r.timeout)
    (deadline : q.deadline = (r.timeout.bind (deadline? x.horizon x.clock) <|> r.deadline)) :
    Waits x.horizon p born (steps ++ [x]) t q := by
  have due : dueTime? x.horizon p born (steps ++ [x]) =
      (p.timeout.bind (deadline? x.horizon x.clock) <|> dueTime? x.horizon p born steps) :=
    dueTime?_restart accepted past
  rw [h.timeout] at timers timeout deadline
  rw [h.deadline, ← due] at deadline
  refine ⟨timeout, deadline, ?_, ?_⟩
  · rw [timers, due, run]
    cases p.timeout.bind (deadline? x.horizon x.clock) with
    | none => exact h.armed
    | some deadline => exact Timers.of_arm_self
  · intro later hl
    rw [due] at hl
    rw [clock]
    cases hd : p.timeout.bind (deadline? x.horizon x.clock) with
    | none =>
      rw [hd] at hl
      exact h.ahead later hl
    | some deadline =>
      rw [hd] at hl
      cases hl
      obtain ⟨timeout, -, hd⟩ := Option.bind_eq_some_iff.1 hd
      exact deadline?_eq_some hd ▸ Nat.le_add_right _ _

theorem OnTime.step (h : OnTime x.horizon p born steps x) (hs : x.Accounted) (run : x.timersRun)
    (ha : x.agenda = task :: rest)
    (step : TimeStep x task p.key { x with agenda := rest } t) :
    OnTime x.horizon p born (steps ++ [x]) t := by
  cases step with
  | wait unaccepted clock timers entry =>
    refine ⟨?_, fun q hq => ?_⟩
    · rw [startTimes_wait unaccepted, clock]
      exact h.past
    · obtain ⟨r, hr, timed⟩ := entry q hq
      have waits := h.waits r hr
      have due : dueTime? x.horizon p born (steps ++ [x]) = dueTime? x.horizon p born steps :=
        dueTime?_wait unaccepted
      refine ⟨timed.timeout.trans waits.timeout, ?_, ?_, ?_⟩
      · rw [due, timed.deadline, waits.deadline]
      · rw [due, timers (Option.isSome_of_eq_some hq), waits.armed]
      · rw [due, clock]
        exact waits.ahead
  | restart found accepted clock timers entry =>
    refine ⟨?_, fun q hq => ?_⟩
    · rw [startTimes_restart accepted, clock]
      intro time mem
      rcases List.mem_append.1 mem with mem | mem
      · exact h.past time mem
      · exact Nat.le_of_eq (List.mem_singleton.1 mem)
    · exact (h.waits _ found).restart run accepted h.past clock timers (entry q hq).1 (entry q hq).2
  | @elapse time unaccepted named moves =>
    have moved : Elapsed { x with agenda := rest } time t :=
      moves ▸ elapsed (s := { x with agenda := rest }) run time
    refine ⟨?_, fun q hq => ?_⟩
    · rw [startTimes_wait unaccepted]
      exact fun time mem => Nat.le_trans (h.past time mem) moved.frame.1
    · obtain ⟨found, timers, clock⟩ := moved.waits (hs.pop ha) hq
      have waits := h.waits q found
      have due : dueTime? x.horizon p born (steps ++ [x]) = dueTime? x.horizon p born steps :=
        dueTime?_wait unaccepted
      refine ⟨waits.timeout, due.symm ▸ waits.deadline, ?_, fun later hl => ?_⟩
      · rw [due, timers]
        exact waits.armed
      · rw [due] at hl
        refine clock ⟨p.key, later⟩ ?_ (waits.ahead later hl)
        show _ ∈ x.timers.of p.key
        rw [waits.armed, hl]
        exact List.mem_singleton_self _

theorem Bears.started (h : v.Bears w task p) (hs : v.Sane) (ticking : v.Ticking) :
    p.serial = v.ledger.nextSerial ∧ p.timeout = task.timeout? v ∧
      p.deadline = p.timeout.bind (deadline? v.horizon v.clock) ∧ w.clock = v.clock ∧
      w.timers = v.timers.restart v.timersRun p.key p.deadline := by
  obtain ⟨first, rest, ha, tick⟩ := hs.exists_tick h.step
  obtain ⟨rest', ha'⟩ := h.first
  obtain ⟨rfl, rfl⟩ := List.cons.inj (ha.symm.trans ha')
  refine tick.started ticking.run (mem_of_trace (congrArg Trace.outstanding h.after)).1 ?_
  exact fun q hq => not_mem_of_trace (congrArg Trace.outstanding h.before) hq

/-- As it is registered, a request begins to wait. -/
theorem Bears.onTime (h : v.Bears w task p) (hs : v.Sane) (ticking : v.Ticking) :
    OnTime v.horizon p v.clock [] w := by
  obtain ⟨serial, -, deadline, clock, timers⟩ := h.started hs ticking
  -- No timer is left over from another request with the same key: there was none.
  have unarmed : v.timers.of p.key = [] := ticking.unarmed (Nat.le_of_eq serial.symm)
  refine ⟨fun time mem => ?_, fun q hq => ?_⟩
  · exact Nat.le_of_eq ((List.mem_singleton.1 mem).trans clock.symm)
  · rw [findExact?_eq, h.after] at hq
    obtain rfl : p = q := Option.some.inj hq
    refine ⟨rfl, ?_, ?_, fun due hd => ?_⟩
    · rw [dueTime?_start, deadline]
    · rw [dueTime?_start, timers, ← deadline, ticking.run]
      cases p.deadline with
      | none => exact unarmed
      | some deadline => exact Timers.of_arm_self
    · rw [dueTime?_start] at hd
      obtain ⟨timeout, -, hd⟩ := Option.bind_eq_some_iff.1 hd
      rw [clock, ← deadline?_eq_some hd]
      exact Nat.le_add_right _ _

theorem Course.onTime (start : Start s₀) (run : s₀.timersRun) (reached : Reaches s₀ v)
    (born : v.Bears w task p) (course : Course w steps u) :
    OnTime v.horizon p v.clock steps u := by
  have toW : Reaches s₀ w := reached.tail born.next
  have known : p.key.serial < w.ledger.nextSerial :=
    ((toW.fate start.sane (start.fate p.key)).of_mem
      (mem_of_trace (congrArg Trace.outstanding born.after)).1).1
  induction course with
  | start => exact born.onTime (reached.sane start.sane) (reached.ticking start run)
  | @work steps t u course step fair ih =>
    have toT := toW.trans course.reaches
    have sane := toT.sane start.sane
    have known' := Nat.lt_of_lt_of_le known (course.reaches.nextSerial_le (toW.sane start.sane))
    obtain ⟨task, rest, ha, tick⟩ := sane.exists_tick step
    have fromV : Reaches v t := .head born.next course.reaches
    rw [← fromV.horizon_eq (reached.sane start.sane)] at ih ⊢
    exact ih.step sane.accounted (toT.ticking start run).run ha
      (tick.timeStep sane.accounted ha (toT.fate start.sane (start.fate _)) known')
  | call _ call self ih => exact ih.of_eq rfl rfl rfl
  | rewind _ n ih => exact ih.of_eq rfl rfl rfl

/-! ## Out of time -/

/-- If it is the clock that ends a request, its timer has expired. -/
theorem Ends.expired {ending : Ending} (h : x.Ends y q ending) (run : x.timersRun)
    (ha : x.agenda = .elapse time :: rest) :
    ending = .timedOut ∧ ∃ timer ∈ x.timers.of q.key, y.clock = max x.clock timer.deadline := by
  obtain ⟨task, rest', ha', ends⟩ := h.task
  obtain ⟨rfl, rfl⟩ := List.cons.inj (ha'.symm.trans ha)
  rw [Task.ending?, Option.ite_none_right_eq_some, Option.map_eq_some_iff] at ends
  obtain ⟨⟨timer, due, own⟩, same⟩ := ends
  have member := Timers.mem_of.2 ⟨(Timers.due?_eq_some due).1, own⟩
  refine ⟨(Option.some.inj same).symm, timer, member, ?_⟩
  cases elapsed_of_step run ha h.step with
  | arrive due' => cases due.symm.trans due'
  | idle due' gone =>
    obtain rfl := Option.some.inj (due.symm.trans due')
    have absent : x.ledger.findExact? q.key = none := own ▸ gone
    rw [h.before] at absent
    cases absent
  | expire due' found =>
    obtain rfl := Option.some.inj (due.symm.trans due')
    rfl

/-! ## Advances -/

/-- The clock has moved on to a given time, and no timer is due by then. -/
structure Arrived (time : Nat) (back : List Task) (z : State) : Prop where
  agenda : z.agenda = back
  clock : time ≤ z.clock
  timers : ∀ timer ∈ z.timers.armed, time < timer.deadline

/-- As long as timers are due, the clock is to move on further. -/
theorem Elapsed.ahead_or_arrived (h : Elapsed { s with agenda := back } time t) :
    (∃ front, t.agenda = front ++ .elapse time :: back) ∨ Arrived time back t := by
  cases h with
  | arrive due => exact .inr ⟨rfl, Nat.le_max_right _ _, Timers.due?_eq_none due⟩
  | idle => exact .inl ⟨[], rfl⟩
  | @expire _ p => exact .inl ⟨[.finish p .timedOut, .leaveManager], rfl⟩

/-- Along a course the clock that is to move on does so, or still has to. -/
theorem Course.ahead_or_arrived (start : Start s₀) (run : s₀.timersRun) (reached : Reaches s₀ y)
    (course : Course y steps u) (ha : y.agenda = front ++ .elapse time :: back) :
    (∃ front, u.agenda = front ++ .elapse time :: back) ∨
      ∃ before x after z, steps = before ++ x :: after ∧ x.step = some z ∧
        Course y (before ++ [x]) z ∧ Course z after u ∧ Arrived time back z := by
  induction course with
  | start => exact .inl ⟨front, ha⟩
  | @work steps t u course step fair ih =>
    rcases ih with ⟨front, ha⟩ | ⟨before, x, after, z, rfl, last, toZ, fromZ, arrived⟩
    · have reached' := reached.trans course.reaches
      have next : Next t u := .work step fair
      rcases next.ahead_or_first (reached'.sane start.sane) ha with ahead | ⟨first, -⟩
      · exact .inl ahead
      · have moved := elapsed_of_step (reached'.ticking start run).run first step
        refine moved.ahead_or_arrived.imp_right fun arrived => ?_
        exact ⟨steps, t, [], u, rfl, step, course.work step fair, .start, arrived⟩
    · exact .inr ⟨before, x, after ++ [t], z, by simp, last, toZ, fromZ.work step fair, arrived⟩
  | call _ call self ih =>
    rcases ih with ⟨front, ha⟩ | ⟨before, x, after, z, rfl, last, toZ, fromZ, arrived⟩
    · exact .inl ⟨.issue call self :: front, congrArg (Task.issue call self :: ·) ha⟩
    · exact .inr ⟨before, x, after, z, rfl, last, toZ, fromZ.call call self, arrived⟩
  | rewind _ n ih =>
    rcases ih with ahead | ⟨before, x, after, z, rfl, last, toZ, fromZ, arrived⟩
    · exact .inl ahead
    · exact .inr ⟨before, x, after, z, rfl, last, toZ, fromZ.rewind n, arrived⟩

/-- An advance is still under way, or was over as soon as the clock had arrived. -/
theorem Course.advanced {millis : Nat} {self : RequestId} (start : Start s₀) (run : s₀.timersRun)
    (course : Course s₀ (before ++ x :: after) u)
    (called : x.agenda = .issue (.advance millis) self :: rest) :
    (∃ front, u.agenda =
      front ++ .elapse (x.clock + millis) :: .answer (.advance millis) .none :: rest) ∨
    ∃ inner last later z, after = inner ++ last :: later ∧ last.step = some z ∧
      Course s₀ (before ++ x :: inner ++ [last]) z ∧ Course z later u ∧
      Arrived (x.clock + millis) (.answer (.advance millis) .none :: rest) z := by
  obtain ⟨y, toX, step, fair, fromY⟩ := course.split
  have toY : Course s₀ (before ++ [x]) y := toX.work step fair
  have agenda : y.agenda =
      [] ++ .elapse (x.clock + millis) :: .answer (.advance millis) .none :: rest := by
    rw [step_of_agenda called, Option.some.injEq] at step
    exact step ▸ rfl
  refine (fromY.ahead_or_arrived start run toY.reaches agenda).imp_right ?_
  rintro ⟨inner, last, later, z, rfl, stepZ, toZ, fromZ, arrived⟩
  refine ⟨inner, last, later, z, rfl, stepZ, ?_, fromZ, arrived⟩
  have whole := toY.trans toZ
  rwa [List.append_assoc, List.singleton_append, ← List.cons_append, ← List.append_assoc] at whole

/-- Once the clock has arrived, a request whose deadline it has reached is not outstanding. -/
theorem OnTime.absent_of_arrived {due : Nat} (h : OnTime horizon p born steps u)
    (arrived : Arrived time back u) (hd : dueTime? horizon p born steps = some due)
    (le : due ≤ time) : u.ledger.findExact? p.key = none := by
  cases hq : u.ledger.findExact? p.key with
  | none => rfl
  | some q =>
    have armed := (h.waits q hq).armed
    rw [hd] at armed
    have mem : ⟨p.key, due⟩ ∈ u.timers.of p.key := armed ▸ List.mem_singleton_self _
    exact (Nat.not_lt_of_le le (arrived.timers _ (Timers.mem_of.1 mem).1)).elim

/-! ## The law of deadlines -/

/-- What a deadline means for a request that is registered in a given step of a run, from which
on the run takes further steps. -/
structure DeadlineLaw (task : Task) (p : Pending) (earlier : List State) (v : State)
    (steps : List State) (u : State) : Prop where
  /-- The request is given the time that its maker, or the mount, gives it. -/
  given : p.timeout = task.timeout? v
  /-- As long as the request is outstanding, it waits for its deadline, and no timer but that for
  its deadline is armed for it. -/
  waits : ∀ q, u.ledger.findExact? p.key = some q →
    Waits v.horizon p v.clock steps u q
  /-- Unless it goes down with its manager, the request is outstanding or a step has ended it. -/
  outcome : (u.ledger.findExact? p.key).isSome ∨
    (∃ before x after y q ending, steps = before ++ x :: after ∧ x.Ends y q ending ∧
      q.key = p.key ∧ (u.trace p.key).Settled q ending) ∨
    p.owner.isOperation = false ∧ u.managerAlive = false ∧ u.trace p.key = {}
  /-- If it is the clock that ends it, it is out of time, and the clock shows its deadline. -/
  expires : ∀ before x after y q ending time rest, steps = before ++ x :: after →
    x.Ends y q ending → q.key = p.key → x.agenda = .elapse time :: rest →
    ending = .timedOut ∧ dueTime? v.horizon p v.clock before = some y.clock
  /-- An advance, whatever is called on the way and whether or not it began before the request,
  is still under way, or when it was over a request whose deadline it had reached was not
  outstanding any more. -/
  advances : ∀ before x after millis self rest, earlier ++ v :: steps = before ++ x :: after →
    x.agenda = .issue (.advance millis) self :: rest →
    (∃ front, u.agenda =
      front ++ .elapse (x.clock + millis) :: .answer (.advance millis) .none :: rest) ∨
    ∃ inner last later z, after = inner ++ last :: later ∧ last.step = some z ∧
      Arrived (x.clock + millis) (.answer (.advance millis) .none :: rest) z ∧
      ∀ since due, earlier ++ v :: since = before ++ x :: inner ++ [last] →
        dueTime? v.horizon p v.clock since = some due → due ≤ x.clock + millis →
        z.ledger.findExact? p.key = none ∧ u.ledger.findExact? p.key = none
  /-- The deadline of the request is never moved to an earlier time, and never taken away. -/
  later : ∀ before x after q r due, steps = before ++ x :: after →
    x.ledger.findExact? p.key = some q → q.deadline = some due →
    u.ledger.findExact? p.key = some r → ∃ due', r.deadline = some due' ∧ due ≤ due'
  /-- A timer that expires although its request is not outstanding has no effect. -/
  stale : ∀ x ∈ earlier ++ v :: steps, ∀ y time rest timer, x.step = some y →
    x.agenda = .elapse time :: rest → x.timers.due? time = some timer →
    x.ledger.findExact? timer.request = none →
    y = { x with
      timers := x.timers.stop timer.request
      clock := max x.clock timer.deadline }

theorem Elapsed.eq_of_stale {timer : Timer} (h : Elapsed { x with agenda := rest } time y)
    (ha : x.agenda = .elapse time :: rest) (due : x.timers.due? time = some timer)
    (gone : x.ledger.findExact? timer.request = none) :
    y = { x with
      timers := x.timers.stop timer.request
      clock := max x.clock timer.deadline } := by
  cases h with
  | arrive due' => cases due.symm.trans due'
  | idle due' =>
    obtain rfl := Option.some.inj (due.symm.trans due')
    cases x
    cases ha
    rfl
  | expire due' found =>
    obtain rfl := Option.some.inj (due.symm.trans due')
    cases gone.symm.trans found

theorem Waits.eq_due {timer : Timer} (h : Waits horizon p born steps u q)
    (mem : timer ∈ u.timers.of p.key) :
    dueTime? horizon p born steps = some (max u.clock timer.deadline) := by
  rw [h.armed, Option.mem_toList, Option.map_eq_some_iff] at mem
  obtain ⟨due, hd, rfl⟩ := mem
  rw [hd, Nat.max_eq_right (h.ahead due hd)]

/-- In every run in which timers run, whatever callbacks and observers call, a request is out of
time at its deadline and not before, and no advance that reaches the deadline leaves it
outstanding. -/
theorem deadline_law (start : Start s₀) (run : s₀.timersRun)
    (course : Course s₀ (earlier ++ v :: steps) u) (born : v.Bears w task p) :
    DeadlineLaw task p earlier v steps u := by
  obtain ⟨w', toV, step, fair, fromW⟩ := course.split
  obtain rfl : w = w' := Option.some.inj (born.step.symm.trans step)
  have reached : Reaches s₀ v := toV.reaches
  have toW : Reaches s₀ w := reached.tail born.next
  have outstanding := mem_of_trace (congrArg Trace.outstanding born.after)
  have known := ((toW.fate start.sane (start.fate p.key)).of_mem outstanding.1).1
  have onTime : ∀ {steps u}, Course w steps u →
      OnTime v.horizon p v.clock steps u :=
    fun course => course.onTime start run reached born
  constructor
  case given => exact (born.started (reached.sane start.sane) (reached.ticking start run)).2.1
  case waits => exact (onTime fromW).waits
  case outcome =>
    rcases fromW.life (toW.sane start.sane) known born.after with ⟨q, -, entry⟩ |
      ⟨before, x, after, y, q, ending, rfl, -, ends, -, same, -, settled⟩ | lost
    · exact .inl (by simp [findExact?_eq, entry])
    · exact .inr (.inl ⟨before, x, after, y, q, ending, rfl, ends, same.key, settled⟩)
    · exact .inr (.inr lost)
  case expires =>
    rintro before x after y q ending time rest rfl ends own ha
    obtain ⟨-, toX, -⟩ := fromW.split
    obtain ⟨timedOut, timer, mem, clock⟩ :=
      ends.expired ((toW.trans toX.reaches).ticking start run).run ha
    have waits := (onTime toX).waits q (own ▸ ends.before)
    rw [own] at mem
    exact ⟨timedOut, clock ▸ waits.eq_due mem⟩
  case advances =>
    rintro before x after millis self rest cut called
    rw [cut] at course
    refine (course.advanced start run called).imp_right ?_
    rintro ⟨inner, last, later, z, rfl, stepZ, toZ, fromZ, arrived⟩
    refine ⟨inner, last, later, z, rfl, stepZ, arrived, ?_⟩
    intro since due cut' hd le
    rw [← cut'] at toZ
    obtain ⟨w', -, step, -, since⟩ := toZ.split
    obtain rfl : w = w' := Option.some.inj (born.step.symm.trans step)
    have absent := (onTime since).absent_of_arrived arrived hd le
    exact ⟨absent, fromZ.reaches.absent (toZ.reaches.sane start.sane)
      (toZ.reaches.fate start.sane (start.fate _))
      (Nat.lt_of_lt_of_le known (since.reaches.nextSerial_le (toW.sane start.sane))) absent⟩
  case later =>
    rintro before x after q r due rfl hq hd hr
    obtain ⟨-, toX, -⟩ := fromW.split
    have waits := (onTime toX).waits q hq
    rw [((onTime fromW).waits r hr).deadline]
    exact dueTime?_mono (waits.deadline ▸ hd) _
  case stale =>
    intro x mem y time rest timer step ha due gone
    obtain ⟨before, after, cut⟩ := List.append_of_mem mem
    rw [cut] at course
    obtain ⟨-, toX, -⟩ := course.split
    exact (elapsed_of_step (toX.reaches.ticking start run).run ha step).eq_of_stale ha due gone

/-- A request is given 50 milliseconds, and a part of its reply is accepted after 30.  In an
advance by 100 more it is out of time when the clock shows 80. -/
theorem deadline_law_of_progress :
    ∃ (v w : State) (p : Pending) (steps : List State) (x y : State) (q : Pending),
      v.Bears w (.issue (.create .readFile (some 50) true none [] [] []) ⟨0⟩) p ∧
      Course w steps x ∧ x.Ends y q .timedOut ∧ q.key = p.key ∧
      p.timeout = some 50 ∧ startTimes v.clock p.key steps = [0, 30] ∧ y.clock = 80 := by
  have born : State.Bears
      ((ofManager true true).push
        [.issue (.create .readFile (some 50) true none [] [] []) ⟨0⟩])
      ((ofManager true true).create (.create .readFile (some 50) true none [] [] []) ⟨0⟩ .readFile
        (some 50) true (.client none [] [] []))
      (.issue (.create .readFile (some 50) true none [] [] []) ⟨0⟩)
      { id := ⟨1⟩, serial := 1, kind := .readFile, timeout := some 50, deadline := some 50
        accepting := true, owner := .client none [] [] [] } :=
    ⟨.work rfl (not_trespasses rfl (by simp)), rfl, ⟨[], rfl⟩, ⟨_, rfl, .refl _⟩, rfl, rfl⟩
  obtain ⟨x, y, q, rest, hx, ha, hq, own, due, step, gone⟩ : ∃ x y q rest,
      ((ofManager true true).create (.create .readFile (some 50) true none [] [] []) ⟨0⟩ .readFile
        (some 50) true (.client none [] [] [])).follow?
          ([.work, .work] ++ .call (.advance 30) ⟨0⟩ :: List.replicate 3 .work ++
            .call (.deliver (.given ⟨1⟩) (.part (.data [1]))) ⟨0⟩ :: List.replicate 5 .work ++
            [.call (.advance 100) ⟨0⟩, .work]) = some x ∧
      x.agenda = .elapse 130 :: rest ∧
      x.ledger.findExact? ⟨⟨1⟩, 1⟩ = some q ∧ q.key = ⟨⟨1⟩, 1⟩ ∧
      (x.timers.due? 130).map (·.request) = some ⟨⟨1⟩, 1⟩ ∧ x.step = some y ∧
      y.ledger.findExact? ⟨⟨1⟩, 1⟩ = none :=
    ⟨_, _, _, _, rfl, rfl, rfl, rfl, rfl, rfl, rfl⟩
  have fair := not_trespasses ha (by simp)
  have ends : x.Ends y q .timedOut := by
    refine ⟨.work step fair, step, ⟨_, rest, ha, ?_⟩, own ▸ hq, own ▸ gone⟩
    rw [Task.ending?, due, own, if_pos rfl]
  have course := course_of_follow? hx
  have toV := Course.call (.start (s := ofManager true true))
    (.create .readFile (some 50) true none [] [] []) ⟨0⟩
  have whole := (toV.work born.step born.fair).trans
    (course.work step fair)
  rw [List.nil_append, List.append_assoc, List.singleton_append, ← List.nil_append (_ :: _)]
    at whole
  have law := deadline_law (.manager true true _) rfl whole born
  have clock := (law.expires _ x [] y q .timedOut 130 rest rfl ends own ha).2
  refine ⟨_, _, _, _, x, y, q, born, course, ends, own, rfl, by decide +kernel, ?_⟩
  exact Option.some.inj (clock.symm.trans (by decide +kernel))

end FileRelay.State
