import FileRelay.Proofs.Deadlines

/-!
# Armed timers

Timers are kept beside the ledger.  One is armed as a request is registered or a part of its reply
is accepted, and stopped as the request is finished, when it has left the ledger already.  Whatever
is called in between, at every moment of a run in which timers run

* an outstanding request that has a deadline has one timer, armed for just that deadline, and any
  other outstanding request has none;
* every other timer is that of a request which has left the ledger and is still to be finished.

A call that ends requests finishes them before it is over.  So when no such call is under way, the
timers are those of the outstanding requests that have a deadline, one each.  Only a manager that
is let go leaves timers behind, and never again is there a request for them to end.
-/

namespace FileRelay

/-- The timer that a request should have while it is outstanding. -/
def Pending.timer? (p : Pending) : Option Timer := p.deadline.map (Timer.mk p.key)

theorem Pending.request_of_timer? {p : Pending} {timer : Timer} (h : p.timer? = some timer) :
    timer.request = p.key := by
  obtain ⟨deadline, -, rfl⟩ := Option.map_eq_some_iff.1 h
  rfl

theorem Pending.Timed.timer?_eq {p q : Pending} (h : p.Timed q) : q.timer? = p.timer? := by
  rw [Pending.timer?, Pending.timer?, h.key, h.deadline]

namespace Timers

variable {timers : Timers}

/-- No request has two timers. -/
def Single (timers : Timers) : Prop := (timers.armed.map (·.request)).Nodup

theorem Single.stop (h : timers.Single) (request : RequestKey) : (timers.stop request).Single :=
  h.sublist (List.Sublist.map _ List.filter_sublist)

theorem Single.arm (h : timers.Single) (request : RequestKey) (deadline : Nat) :
    (timers.arm request deadline).Single := by
  rw [Single, Timers.arm, List.map_append]
  refine List.Nodup.append (h.stop request) (List.nodup_singleton _) ?_
  intro key mem last
  obtain ⟨timer, stopped, rfl⟩ := List.mem_map.1 mem
  exact (mem_stop.1 stopped).2 (List.mem_singleton.1 last)

theorem Single.restart (h : timers.Single) (run : Bool) (request : RequestKey)
    (deadline : Option Nat) : (timers.restart run request deadline).Single := by
  unfold Timers.restart
  split
  · split
    · exact h.arm request _
    · exact h
  · exact h

end Timers

namespace State

variable {s₀ s t u : State} {task : Task} {rest : List Task} {p q : Pending} {timer : Timer}

/-- The timers that the outstanding requests should have. -/
def dueTimers (s : State) : List Timer := s.ledger.entries.filterMap Pending.timer?

/-- A request has left the ledger and is still to be finished, by a task on the agenda. -/
def Finishing (s : State) (p : Pending) : Prop := ∃ ending, .finish p ending ∈ s.agenda

/-- Requests have different ids, and so they have different timers. -/
theorem Accounted.nodup_dueTimers (hs : s.Accounted) : s.dueTimers.Nodup := by
  have ids : s.ledger.entries.Pairwise fun p q => p.id ≠ q.id := List.pairwise_map.1 hs.nodup_ids
  rw [dueTimers, List.Nodup, List.pairwise_filterMap]
  refine ids.imp ?_
  rintro p q other timer hp timer' hq rfl
  have same : p.key = q.key := (Pending.request_of_timer? hp).symm.trans
    (Pending.request_of_timer? hq)
  exact other (congrArg RequestKey.id same)

theorem Rewound.single (h : Rewound s t) (hs : s.timers.Single) : t.timers.Single := by
  cases h with
  | same timers =>
    rw [timers]
    exact hs
  | stop request timers =>
    rw [timers]
    exact hs.stop request
  | restart p _ deadline timers =>
    rw [timers]
    exact hs.restart _ p.key deadline

/-! ## What every step keeps -/

/-- Timers and requests go together, as far as they do at every moment. -/
structure Timekeeping (s : State) : Prop where
  /-- An outstanding request has one timer, for its deadline, if it has a deadline. -/
  waiting : ∀ p ∈ s.ledger.entries, s.timers.of p.key = p.timer?.toList
  single : s.timers.Single
  /-- A timer is that of an outstanding request, or of one that is still to be finished. -/
  owned : ∀ timer ∈ s.timers.armed, s.managerAlive = false ∨
    (∃ p ∈ s.ledger.entries, p.key = timer.request) ∨ ∃ p, s.Finishing p ∧ p.timer? = some timer

theorem Start.timekeeping (h : Start s) : s.Timekeeping := by
  cases h <;> exact ⟨by rintro p ⟨⟩, List.nodup_nil, by rintro timer ⟨⟩⟩

/-- The timer of an outstanding request is the one that it should have. -/
theorem Timekeeping.timer?_of_mem (h : s.Timekeeping) (hp : p ∈ s.ledger.entries)
    (mem : timer ∈ s.timers.armed) (own : p.key = timer.request) : p.timer? = some timer := by
  have armed := Timers.mem_of.2 ⟨mem, own.symm⟩
  rwa [h.waiting p hp, Option.mem_toList] at armed

/-- A request that was outstanding before a step has the timer that it should have after it. -/
theorem Timekeeping.waiting_of_timeStep (h : s.Timekeeping) (hs : s.Accounted)
    (run : s.timersRun) (ha : s.agenda = task :: rest) (hq : t.ledger.findExact? q.key = some q)
    (step : TimeStep s task q.key { s with agenda := rest } t) :
    t.timers.of q.key = q.timer?.toList := by
  cases step with
  | wait _ _ timers entry =>
    obtain ⟨p, hp, timed⟩ := entry q hq
    have waiting := h.waiting p (mem_of_findExact? hp).1
    rw [timers (Option.isSome_of_eq_some hq), timed.timer?_eq, ← waiting, timed.key]
  | @restart p found _ _ timers entry =>
    obtain ⟨hp, own⟩ := mem_of_findExact? found
    have waiting := h.waiting p hp
    rw [timers, run, Timers.of_restart_self, Pending.timer?, (entry q hq).2]
    cases p.timeout.bind (deadline? s.horizon s.clock) with
    | some due => rfl
    | none =>
      rw [Pending.timer?, own] at waiting
      exact waiting
  | @elapse time _ _ moves =>
    have moved : Elapsed { s with agenda := rest } time t :=
      moves ▸ elapsed (s := { s with agenda := rest }) run time
    obtain ⟨found, timers, -⟩ := moved.waits (hs.pop ha) hq
    rw [timers]
    exact h.waiting q (mem_of_findExact? found).1

/-- A step leaves every outstanding request with the timer that it should have. -/
theorem Timekeeping.waiting_of_step (h : s.Timekeeping) (hs : s.Sane) (ht : t.Sane)
    (ticking : s.Ticking) (fate : ∀ key, s.Fate key) (step : s.step = some t)
    (hq : q ∈ t.ledger.entries) : t.timers.of q.key = q.timer?.toList := by
  obtain ⟨task, rest, ha, tick⟩ := hs.exists_tick step
  by_cases old : ∃ p ∈ s.ledger.entries, p.key = q.key
  · obtain ⟨p, hp, own⟩ := old
    have known := own ▸ ((fate p.key).of_mem hp).1
    exact h.waiting_of_timeStep hs.accounted ticking.run ha (findExact?_of_mem ht.accounted hq)
      (tick.timeStep hs.accounted ha (fate q.key) known)
  · obtain ⟨serial, -, -, -, timers⟩ :=
      tick.started ticking.run hq fun p hp own => old ⟨p, hp, own⟩
    rw [timers, ticking.run, Timers.of_restart_self, Pending.timer?]
    cases q.deadline with
    | some due => rfl
    | none => exact ticking.unarmed (Nat.le_of_eq serial.symm)

/-- A request that a step takes out of the ledger is still to be finished. -/
theorem Ends.finishing {ending : Ending} (h : s.Ends t q ending) (hs : s.Sane)
    (fate : s.Fate q.key) : t.Finishing q := by
  have owed : .finish q ending ∈ (t.trace q.key).owed := by
    rw [h.trace hs fate]
    exact List.mem_singleton_self _
  exact ⟨ending, (List.mem_filter.1 owed).1⟩

/-- A request that is still to be finished stays so, or its timer is stopped. -/
theorem Next.finishing_or_stopped (hn : Next s t) (hs : s.Sane) (finishing : s.Finishing p) :
    t.Finishing p ∨ ∀ timer ∈ t.timers.armed, timer.request ≠ p.key := by
  obtain ⟨ending, mem⟩ := finishing
  obtain ⟨front, back, ha⟩ := List.append_of_mem mem
  rcases hn.ahead_or_first hs ha with ⟨front, ha⟩ | ⟨ha, step⟩
  · exact .inl ⟨ending, ha ▸ List.mem_append_right _ List.mem_cons_self⟩
  · rw [step_of_agenda ha, Option.some.injEq] at step
    refine .inr fun timer armed => ?_
    rw [← step] at armed
    exact (Timers.mem_stop.1 armed).2

/-- A step leaves no timer armed for a request that is over. -/
theorem Timekeeping.owned_of_step (h : s.Timekeeping) (hs : s.Sane) (fate : ∀ key, s.Fate key)
    (hn : Next s t) (step : s.step = some t) (mem : timer ∈ t.timers.armed) :
    t.managerAlive = false ∨ (∃ p ∈ t.ledger.entries, p.key = timer.request) ∨
      ∃ p, t.Finishing p ∧ p.timer? = some timer := by
  obtain ⟨task, rest, ha, tick⟩ := hs.exists_tick step
  rcases tick.rewound.armed mem with before | outstanding
  · have before : timer ∈ s.timers.armed := before
    rcases h.owned timer before with gone | ⟨p, hp, own⟩ | ⟨p, finishing, timer?⟩
    · exact .inl (hn.gone_of_gone hs.upkeep gone)
    · -- It stays outstanding, or this very step ends it, or it goes down with its manager.
      obtain ⟨known, entry⟩ := (fate p.key).of_mem hp
      rcases hn.turn hs known entry with ⟨r, -, stays⟩ | ⟨ending, ends, -⟩ | ⟨-, gone, -⟩
      · obtain ⟨there, same⟩ := mem_of_trace (congrArg Trace.outstanding stays)
        exact .inr (.inl ⟨r, there, same.trans own⟩)
      · exact .inr (.inr ⟨p, ends.finishing hs (fate p.key), h.timer?_of_mem hp before own⟩)
      · exact .inl gone
    · rcases hn.finishing_or_stopped hs finishing with still | stopped
      · exact .inr (.inr ⟨p, still, timer?⟩)
      · exact (stopped timer mem (Pending.request_of_timer? timer?)).elim
  · exact .inr (.inl outstanding)

/-! ## What every run keeps -/

theorem Reaches.timekeeping (start : Start s₀) (run : s₀.timersRun) (h : Reaches s₀ s) :
    s.Timekeeping := by
  refine h.invariant start.timekeeping fun u v reached next hu => ?_
  have sane := reached.sane start.sane
  have fate : ∀ key, u.Fate key := fun key => reached.fate start.sane (start.fate key)
  cases next with
  | work step fair =>
    have next : Next u v := .work step fair
    obtain ⟨task, rest, ha, tick⟩ := sane.exists_tick step
    constructor
    · intro q hq
      exact hu.waiting_of_step sane (next.sane sane) (reached.ticking start run) fate step hq
    · exact tick.rewound.single hu.single
    · intro timer mem
      exact hu.owned_of_step sane fate next step mem
  | call call self =>
    have pushed : Change u (.issue call self) u (u.push [.issue call self]) := .again u call self
    refine ⟨hu.waiting, hu.single, fun timer mem => ?_⟩
    rw [pushed.stays.1]
    refine (hu.owned timer mem).imp_right (Or.imp_right ?_)
    rintro ⟨p, ⟨ending, finishing⟩, timer?⟩
    exact ⟨p, ⟨ending, List.mem_cons_of_mem _ finishing⟩, timer?⟩
  | rewind n => exact ⟨hu.waiting, hu.single, hu.owned⟩

/-- As long as the manager is there, a timer is one that an outstanding request should have, or
that of a request which is still to be finished. -/
theorem Timekeeping.due_or_finishing (h : s.Timekeeping) (alive : s.managerAlive)
    (mem : timer ∈ s.timers.armed) :
    timer ∈ s.dueTimers ∨ ∃ p, s.Finishing p ∧ p.timer? = some timer := by
  rcases h.owned timer mem with gone | ⟨p, hp, own⟩ | finishing
  · rw [gone] at alive
    cases alive
  · exact .inl (List.mem_filterMap.2 ⟨p, hp, h.timer?_of_mem hp mem own⟩)
  · exact .inr finishing

/-- The timers that outstanding requests should have are armed. -/
theorem Timekeeping.armed_of_due (h : s.Timekeeping) (due : timer ∈ s.dueTimers) :
    timer ∈ s.timers.armed := by
  obtain ⟨p, hp, timer?⟩ := List.mem_filterMap.1 due
  have mem : timer ∈ s.timers.of p.key := by
    rw [h.waiting p hp, timer?]
    exact List.mem_singleton_self timer
  exact (Timers.mem_of.1 mem).1

/-- With nothing to be finished, just these are armed. -/
theorem Timekeeping.armed_perm (h : s.Timekeeping) (hs : s.Accounted) (alive : s.managerAlive)
    (none : ∀ p, ¬ s.Finishing p) : s.timers.armed.Perm s.dueTimers := by
  rw [List.perm_ext_iff_of_nodup (List.Nodup.of_map _ h.single) hs.nodup_dueTimers]
  intro timer
  constructor
  · intro mem
    rcases h.due_or_finishing alive mem with due | ⟨p, finishing, -⟩
    · exact due
    · exact (none p finishing).elim
  · exact h.armed_of_due

/-- Once the manager is gone no request is outstanding ever again. -/
theorem Reaches.entries_of_gone (h : Reaches s t) (hs : s.Sane) (gone : s.managerAlive = false) :
    t.ledger.entries = [] := by
  have gone' : t.managerAlive = false :=
    h.invariant (P := fun t => t.managerAlive = false) gone fun _ _ hu hn gone =>
      hn.gone_of_gone (hu.sane hs).upkeep gone
  by_contra some
  rw [(h.sane hs).upkeep.live some] at gone'
  cases gone'

/-! ## The timers that are armed -/

/-- The timers that are armed are those that should be. -/
structure TimersExact (u : State) : Prop where
  /-- An outstanding request has one timer, which carries its key and its current deadline; one
  without a deadline has none. -/
  waiting : ∀ p ∈ u.ledger.entries, u.timers.of p.key = p.timer?.toList
  /-- No request, outstanding or not, has two timers. -/
  single : u.timers.Single
  /-- Any other timer is that of a request which has left the ledger and is still to be
  finished. -/
  others : u.managerAlive → ∀ timer ∈ u.timers.armed, timer ∉ u.dueTimers →
    ∃ p, u.Finishing p ∧ p.timer? = some timer
  /-- If nothing is still to be finished, the timers are those of the outstanding requests that
  have a deadline, one each. -/
  exact : u.managerAlive → (∀ p, ¬ u.Finishing p) → u.timers.armed.Perm u.dueTimers
  /-- So it is when nothing at all is under way. -/
  idle : u.managerAlive → u.agenda = [] → u.timers.armed.Perm u.dueTimers
  /-- Once the manager is gone no request is outstanding ever again. -/
  gone : u.managerAlive = false → ∀ t, Reaches u t → t.ledger.entries = []

/-- For every run in which timers run, and in every state of it, however calls nest and whatever
they do: as long as the manager is there, the timers are those of the outstanding requests that
have a deadline, and besides only those of requests that a call under way is about to finish. -/
theorem armed_timers_exact (start : Start s₀) (run : s₀.timersRun) (reached : Reaches s₀ u) :
    TimersExact u := by
  have sane := reached.sane start.sane
  have kept := reached.timekeeping start run
  constructor
  case waiting => exact kept.waiting
  case single => exact kept.single
  case others =>
    intro alive timer mem other
    exact (kept.due_or_finishing alive mem).resolve_left other
  case exact => exact kept.armed_perm sane.accounted
  case idle =>
    intro alive idle
    refine kept.armed_perm sane.accounted alive ?_
    rintro p ⟨ending, mem⟩
    rw [idle] at mem
    cases mem
  case gone =>
    intro gone t later
    exact later.entries_of_gone sane gone

/-- Three requests, the second without a deadline.  In an advance by 30 milliseconds the third is
out of time at 10; its callback delivers a part for the first, and creates a fourth, which is out
of time at 15.  What is left is one timer, for the new deadline of the first. -/
theorem armed_timers_exact_of_nested :
    ∃ u : State, Reaches (ofManager true true) u ∧ u.agenda = [] ∧ u.clock = 30 ∧
      u.ledger.entries.map (·.key) = [⟨⟨1⟩, 1⟩, ⟨⟨2⟩, 2⟩] ∧ u.dueTimers = [⟨⟨⟨1⟩, 1⟩, 60⟩] ∧
      u.timers.armed.Perm u.dueTimers := by
  obtain ⟨u, run, idle, alive, clock, outstanding, due⟩ : ∃ u, (ofManager true true).follow?
      (calling [(.create .readFile (some 50) true none [] [] [], 3),
        (.create .getMetadata none false none [] [] [], 3),
        (.create .getMetadata (some 10) false none []
          [.deliver (.given ⟨1⟩) (.part (.data [1])),
            .create .getMetadata (some 5) false none [] [] []] [], 3),
        (.advance 30, 21)]) = some u ∧
      u.agenda = [] ∧ u.managerAlive ∧ u.clock = 30 ∧
      u.ledger.entries.map (·.key) = [⟨⟨1⟩, 1⟩, ⟨⟨2⟩, 2⟩] ∧ u.dueTimers = [⟨⟨⟨1⟩, 1⟩, 60⟩] :=
    ⟨_, rfl, rfl, rfl, rfl, rfl, rfl⟩
  have law := armed_timers_exact (.manager true true _) rfl (reaches_of_follow? run)
  exact ⟨u, reaches_of_follow? run, idle, clock, outstanding, due, law.idle alive idle⟩

end State

end FileRelay
