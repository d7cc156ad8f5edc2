import FileRelay.Proofs.Steady
import FileRelay.Proofs.Parts

/-!
# Timers

A request has at most one timer, and nobody but the clock has it expire.  For the time of one
request a step means one of three things: nothing, or that it starts over as a part of the reply
is accepted, or that the clock moves on.  When it does, the timer of the earliest deadline expires
first, and the clock never passes a deadline without having its timer expire.
-/

namespace FileRelay

namespace Timers

variable {timers : Timers} {timer : Timer} {request other : RequestKey} {deadline limit : Nat}

/-- The timers armed for a request. -/
def of (timers : Timers) (request : RequestKey) : List Timer :=
  timers.armed.filter (·.request = request)

theorem mem_of : timer ∈ timers.of request ↔ timer ∈ timers.armed ∧ timer.request = request := by
  simp [of]

theorem of_stop (ne : other ≠ request) : (timers.stop other).of request = timers.of request := by
  rw [of, of, stop, List.filter_filter]
  refine List.filter_congr fun timer _ => ?_
  by_cases h : timer.request = request
  · simp [h, ne.symm]
  · simp [h]

theorem of_arm_self : (timers.arm request deadline).of request = [⟨request, deadline⟩] := by
  simp [of, arm, stop, List.filter_filter]

theorem of_arm (ne : other ≠ request) :
    (timers.arm other deadline).of request = timers.of request := by
  have stopped : (timers.stop other).of request = timers.of request := of_stop ne
  rw [← stopped, of, of, arm, List.filter_append]
  simp [ne]

theorem of_restart {run : Bool} {deadline : Option Nat} (ne : other ≠ request) :
    (timers.restart run other deadline).of request = timers.of request := by
  unfold restart
  split
  · split
    · exact of_arm ne
    · rfl
  · rfl

/-- Once the time of a request has started over, its timer is for the new deadline, or the old one
if there is no new deadline. -/
theorem of_restart_self {deadline : Option Nat} :
    (timers.restart true request deadline).of request =
      match deadline with
      | some deadline => [⟨request, deadline⟩]
      | none => timers.of request := by
  unfold restart
  split
  · rw [if_pos rfl]
    exact of_arm_self
  · rfl

theorem mem_restart {run : Bool} {deadline : Option Nat}
    (h : timer ∈ (timers.restart run request deadline).armed) :
    timer ∈ timers.armed ∨ timer.request = request := by
  unfold restart at h
  split at h
  · split at h
    · rcases mem_arm.1 h with h | rfl
      · exact .inl h.1
      · exact .inr rfl
    · exact .inl h
  · exact .inl h

/-! ## The timer to expire next -/

theorem foldl_earlier (rest : List Timer) (timer : Timer) :
    rest.foldl earlier timer ∈ timer :: rest ∧
      ∀ x ∈ timer :: rest, (rest.foldl earlier timer).deadline ≤ x.deadline := by
  induction rest generalizing timer with
  | nil => simp
  | cons next rest ih =>
    obtain ⟨mem, least⟩ := ih (earlier timer next)
    rw [List.foldl_cons]
    have either : earlier timer next = timer ∨ earlier timer next = next := by
      rw [earlier]
      split <;> simp
    have below : (earlier timer next).deadline ≤ timer.deadline ∧
        (earlier timer next).deadline ≤ next.deadline := by
      rw [earlier]
      split <;> omega
    constructor
    · rcases List.mem_cons.1 mem with same | mem
      · rw [same]
        rcases either with h | h <;> simp [h]
      · simp [mem]
    · intro x hx
      have first := least (earlier timer next) List.mem_cons_self
      rcases List.mem_cons.1 hx with rfl | hx
      · exact Nat.le_trans first below.1
      · rcases List.mem_cons.1 hx with rfl | hx
        · exact Nat.le_trans first below.2
        · exact least x (List.mem_cons_of_mem _ hx)

theorem first?_eq_some (h : timers.first? = some timer) :
    timer ∈ timers.armed ∧ ∀ x ∈ timers.armed, timer.deadline ≤ x.deadline := by
  unfold first? at h
  split at h
  · cases h
  · rename_i first rest armed
    cases h
    rw [armed]
    exact foldl_earlier rest first

/-- The timer that is due is armed, and none has an earlier deadline. -/
theorem due?_eq_some (h : timers.due? limit = some timer) :
    timer ∈ timers.armed ∧ timer.deadline ≤ limit ∧
      ∀ x ∈ timers.armed, timer.deadline ≤ x.deadline := by
  rw [due?, Option.filter_eq_some_iff] at h
  obtain ⟨mem, least⟩ := first?_eq_some h.1
  exact ⟨mem, by simpa using h.2, least⟩

/-- If no timer is due, all deadlines are to come. -/
theorem due?_eq_none (h : timers.due? limit = none) : ∀ x ∈ timers.armed, limit < x.deadline := by
  intro x hx
  rw [due?] at h
  cases hf : timers.first? with
  | none =>
    rw [first?] at hf
    split at hf
    · rename_i none
      rw [none] at hx
      cases hx
    · cases hf
  | some first =>
    have least := (first?_eq_some hf).2 x hx
    rw [hf, Option.filter_eq_none_iff] at h
    have late := h first rfl
    simp only [decide_eq_true_eq, Nat.not_le] at late
    omega

end Timers

namespace State

variable {s t u : State} {task : Task} {rest : List Task} {key : RequestKey} {p q : Pending}
  {timer : Timer} {time : Nat}

/-! ## The clock moves on -/

/-- What becomes of a state, in which timers run, as the clock is to move on to a given time. -/
inductive Elapsed (s : State) (time : Nat) : State → Prop
  /-- No timer is due, and the clock gets there. -/
  | arrive (due : s.timers.due? time = none) : Elapsed s time { s with clock := max s.clock time }
  /-- A timer expires whose request is not outstanding. -/
  | idle {timer : Timer} (due : s.timers.due? time = some timer)
      (gone : s.ledger.findExact? timer.request = none) :
      Elapsed s time (({ s with
        timers := s.timers.stop timer.request
        clock := max s.clock timer.deadline } : State).push [.elapse time])
  /-- A timer expires, and its request is out of time. -/
  | expire {timer : Timer} {p : Pending} (due : s.timers.due? time = some timer)
      (found : s.ledger.findExact? timer.request = some p) :
      Elapsed s time ((({ s with
        timers := s.timers.stop timer.request
        clock := max s.clock timer.deadline } : State).push
          [.leaveManager, .elapse time]).timeOut p)

theorem elapsed (run : s.timersRun) (time : Nat) : Elapsed s time (s.elapse time) := by
  rw [elapse, if_pos run]
  cases due : s.timers.due? time with
  | none => exact .arrive due
  | some timer =>
    dsimp only
    cases found : s.ledger.findExact? timer.request with
    | none => exact .idle due found
    | some p => exact .expire due found

theorem elapsed_of_step (run : s.timersRun) (ha : s.agenda = .elapse time :: rest)
    (step : s.step = some t) : Elapsed { s with agenda := rest } time t := by
  rw [step_of_agenda ha, Option.some.injEq] at step
  exact step ▸ elapsed (s := { s with agenda := rest }) run time

/-- However the clock moves on, nothing else that has to do with time is different. -/
theorem Elapsed.frame (h : Elapsed s time t) :
    s.clock ≤ t.clock ∧ t.timersRun = s.timersRun ∧
      (∀ timer ∈ t.timers.armed, timer ∈ s.timers.armed) ∧
      ∀ p ∈ t.ledger.entries, p ∈ s.ledger.entries := by
  cases h with
  | arrive => exact ⟨Nat.le_max_left _ _, rfl, fun _ h => h, fun _ h => h⟩
  | idle =>
    exact ⟨Nat.le_max_left _ _, rfl, fun _ h => (Timers.mem_stop.1 h).1, fun _ h => h⟩
  | expire =>
    exact ⟨Nat.le_max_left _ _, rfl, fun _ h => (Timers.mem_stop.1 h).1,
      fun _ h => (List.mem_filter.1 h).1⟩

/-! ## What becomes of the timers -/

/-- However a step leaves the timers, it has stopped at most one, or had the time of one request
start over that is outstanding then. -/
inductive Rewound (s t : State) : Prop
  | same (timers : t.timers = s.timers)
  | stop (request : RequestKey) (timers : t.timers = s.timers.stop request)
  | restart (p : Pending) (mem : p ∈ t.ledger.entries) (deadline : Option Nat)
      (timers : t.timers = s.timers.restart s.timersRun p.key deadline)

theorem Elapsed.rewound (h : Elapsed s time t) : Rewound s t := by
  cases h with
  | arrive => exact .same rfl
  | idle | expire => exact .stop _ rfl

theorem rewound_elapse (s : State) (time : Nat) : Rewound s (s.elapse time) := by
  cases run : s.timersRun with
  | true => exact (elapsed run time).rewound
  | false =>
    rw [State.elapse, if_neg (by simp [run])]
    exact .same rfl

theorem Tick.rewound (h : Tick s task t) : Rewound s t := by
  cases h with
  | steady _ h => exact .same h.timers
  | takeDown h => exact .same h.timers
  | drop _ _ _ timers => exact .same timers
  | finish p ending => exact .stop p.key rfl
  | elapse time => exact rewound_elapse s time
  | @enter _ p _ enters _ _ _ _ _ timers =>
    refine .restart p ?_ p.deadline timers
    rw [enters.ledger]
    exact List.mem_append_right _ (List.mem_singleton_self p)
  | @take _ p _ _ found _ ledger _ _ _ timers =>
    -- The entry has been changed, but is found under the same key.
    refine .restart { p with
      deadline := p.timeout.bind (deadline? s.horizon s.clock) <|> p.deadline
      accepting := false } ?_ _ timers
    rw [ledger]
    exact List.mem_map.2 ⟨p, List.mem_of_find?_eq_some found, if_pos rfl⟩

/-- A timer was armed before, or is armed for a request that is outstanding now. -/
theorem Rewound.armed (h : Rewound s t) (mem : timer ∈ t.timers.armed) :
    timer ∈ s.timers.armed ∨ ∃ p ∈ t.ledger.entries, p.key = timer.request := by
  cases h with
  | same timers => exact .inl (timers ▸ mem)
  | stop request timers =>
    rw [timers] at mem
    exact .inl (Timers.mem_stop.1 mem).1
  | restart p there deadline timers =>
    rw [timers] at mem
    exact (Timers.mem_restart mem).imp_right fun own => ⟨p, there, own.symm⟩

/-! ## A step -/

/-- What a step, which does a task, means for the time of a request. -/
inductive TimeStep (b : State) (task : Task) (key : RequestKey) (s t : State) : Prop
  /-- It has nothing to do with it. -/
  | wait (unaccepted : b.accepts? key = none) (clock : t.clock = b.clock)
      (timers : (t.ledger.findExact? key).isSome → t.timers.of key = b.timers.of key)
      (entry : ∀ q, t.ledger.findExact? key = some q →
        ∃ p, b.ledger.findExact? key = some p ∧ p.Timed q)
  /-- A part of the reply is accepted, and the time starts over. -/
  | restart {p : Pending} (found : b.ledger.findExact? key = some p)
      (accepted : (b.accepts? key).isSome) (clock : t.clock = b.clock)
      (timers : t.timers =
        b.timers.restart b.timersRun key (p.timeout.bind (deadline? b.horizon b.clock)))
      (entry : ∀ q, t.ledger.findExact? key = some q → q.timeout = p.timeout ∧
        q.deadline = (p.timeout.bind (deadline? b.horizon b.clock) <|> p.deadline))
  /-- The clock moves on. -/
  | elapse {time : Nat} (unaccepted : b.accepts? key = none) (named : task = .elapse time)
      (elapsed : t = s.elapse time)

theorem accepts?_eq_none (ha : s.agenda = task :: rest)
    (h : ∀ p reply, s.ledger.findExact? key = some p →
      task.delivery? s p.id ≠ some (.part reply)) : s.accepts? key = none := by
  rw [accepts?]
  cases hp : s.ledger.findExact? key with
  | none =>
    rw [delivery?, hp]
    cases s.agenda <;> rfl
  | some p =>
    rw [delivery?_of_agenda ha hp]
    cases hd : task.delivery? s p.id with
    | none => rfl
    | some delivery =>
      cases delivery with
      | part reply => exact (h p reply hp hd).elim
      | success | error => rfl

/-- What has become of an outstanding request in a step that keeps the times of all. -/
theorem Timeless.findExact? (h : Timeless s t) (hs : s.Accounted)
    (hq : t.ledger.findExact? key = some q) :
    ∃ p, s.ledger.findExact? key = some p ∧ p.Timed q := by
  obtain ⟨mem, rfl⟩ := mem_of_findExact? hq
  obtain ⟨p, hp, timed⟩ := h.entries q mem
  exact ⟨p, timed.key ▸ findExact?_of_mem hs hp, timed⟩

/-- A task that keeps the times of all requests has nothing to do with that of any one. -/
theorem Timeless.timeStep (h : Timeless { s with agenda := rest } t) (hs : s.Accounted)
    (ha : s.agenda = task :: rest) (unaccepted : s.accepts? key = none) :
    TimeStep s task key { s with agenda := rest } t :=
  .wait unaccepted h.clock (fun _ => congrArg (Timers.of · key) h.timers)
    fun _ hq => h.findExact? (hs.pop ha) hq

/-- A new request is another one. -/
theorem Enters.findExact? (h : Enters task p s t) (hs : s.Accounted)
    (known : key.serial < s.ledger.nextSerial) (hq : t.ledger.findExact? key = some q) :
    s.ledger.findExact? key = some q := by
  obtain ⟨mem, rfl⟩ := mem_of_findExact? hq
  rw [h.ledger] at mem
  rcases List.mem_append.1 mem with mem | mem
  · exact findExact?_of_mem hs (List.mem_filter.1 mem).1
  · have serial := h.serial
    rw [← List.mem_singleton.1 mem] at serial
    change q.serial < _ at known
    omega

/-- A request that was not in the ledger has been registered, and its time starts. -/
theorem Tick.started (h : Tick { s with agenda := rest } task t) (run : s.timersRun)
    (mem : p ∈ t.ledger.entries) (absent : ∀ q ∈ s.ledger.entries, q.key ≠ p.key) :
    p.serial = s.ledger.nextSerial ∧ p.timeout = task.timeout? s ∧
      p.deadline = p.timeout.bind (deadline? s.horizon s.clock) ∧ t.clock = s.clock ∧
      t.timers = s.timers.restart s.timersRun p.key p.deadline := by
  have old : ∀ q ∈ s.ledger.entries, q.key = p.key → False := absent
  cases h with
  | @enter _ q _ enters timeout deadline clock _ _ timers =>
    rw [enters.ledger] at mem
    rcases List.mem_append.1 mem with mem | mem
    · exact (old p (List.mem_filter.1 mem).1 rfl).elim
    · rw [List.mem_singleton.1 mem]
      exact ⟨enters.serial, timeout, deadline, clock, timers⟩
  | steady _ h =>
    obtain ⟨q, hq, timed⟩ := h.entries p mem
    exact (old q hq timed.key.symm).elim
  | takeDown h =>
    obtain ⟨q, hq, timed⟩ := h.entries p mem
    exact (old q hq timed.key.symm).elim
  | take _ _ ledger =>
    rw [ledger] at mem
    obtain ⟨q, hq, rfl⟩ := List.mem_map.1 mem
    refine (old q hq ?_).elim
    split <;> rfl
  | finish => exact (old p mem rfl).elim
  | elapse time =>
    exact (old p ((elapsed (s := { s with agenda := rest }) run time).frame.2.2.2 p mem) rfl).elim
  | drop _ _ _ _ entries =>
    rw [entries] at mem
    cases mem

/-- Accepting a part has the time of one request start over. -/
theorem restarted_timeStep (hs : s.Accounted) (ha : s.agenda = task :: rest)
    {reply : Reply} (found : s.ledger.find? p.id = some p)
    (delivery : task.delivery? s p.id = some (.part reply))
    (ledger : t.ledger = s.restarted p) (clock : t.clock = s.clock)
    (timers : t.timers =
      s.timers.restart s.timersRun p.key (p.timeout.bind (deadline? s.horizon s.clock))) :
    TimeStep s task key { s with agenda := rest } t := by
  have mem := List.mem_of_find?_eq_some found
  have exact_p := findExact?_of_mem hs mem
  by_cases own : p.key = key
  · subst own
    refine .restart exact_p ?_ clock timers ?_
    · rw [accepts?, delivery?_of_agenda ha exact_p, delivery]
      rfl
    · intro q hq
      rw [ledger] at hq
      obtain ⟨r, hr, rfl⟩ := exists_of_modify hq fun _ => rfl
      obtain rfl : p = r := Option.some.inj (exact_p.symm.trans hr)
      exact ⟨rfl, rfl⟩
  · refine .wait (accepts?_eq_none ha ?_) clock ?_ ?_
    · intro r _ hr delivered
      obtain ⟨mem', hk⟩ := mem_of_findExact? hr
      have same := hs.eq_of_id mem mem' (eq_of_delivery? delivered delivery)
      rw [same] at hk
      exact own hk
    · intro
      rw [timers, Timers.of_restart own]
    · intro q hq
      rw [ledger] at hq
      exact ⟨q, find_of_modify hq (fun _ => rfl) own, .refl q⟩

/-- What doing a task means for the time of a request. -/
theorem Tick.timeStep (h : Tick { s with agenda := rest } task t) (hs : s.Accounted)
    (ha : s.agenda = task :: rest) (fate : s.Fate key)
    (known : key.serial < s.ledger.nextSerial) :
    TimeStep s task key { s with agenda := rest } t := by
  cases h with
  | steady undelivered h =>
    refine h.toTimeless.timeStep hs ha (accepts?_eq_none ha ?_)
    intro p reply found
    exact undelivered p reply (hs.find?_of_findExact? found)
  | @enter _ p _ enters timeout deadline clock _ _ timers =>
    have other : p.key ≠ key := by
      rintro rfl
      exact Nat.ne_of_lt known enters.serial
    refine .wait (accepts?_eq_none ha ?_) clock ?_ ?_
    · intro p reply found
      simp [(delivery?_of_owner? enters.owner).2]
    · intro
      rw [timers, Timers.of_restart other]
    · exact fun q hq => ⟨q, enters.findExact? (hs.pop ha) known hq, .refl q⟩
  | take found delivery ledger clock _ _ timers =>
    exact restarted_timeStep hs ha found delivery ledger clock timers
  | finish p ending =>
    refine .wait (accepts?_eq_none ha (by simp [Task.delivery?])) rfl ?_
      fun q hq => ⟨q, hq, .refl q⟩
    intro outstanding
    have other : p.key ≠ key := by
      rintro rfl
      obtain ⟨q, hq⟩ := Option.isSome_iff_exists.1 outstanding
      obtain ⟨mem, own⟩ := mem_of_findExact? (show s.ledger.findExact? p.key = some q from hq)
      have shows := ((own ▸ fate).of_mem mem).2
      exact owed?_ne_of_trace ha (congrArg Trace.owed shows) (own ▸ rfl)
    exact Timers.of_stop other
  | elapse time => exact .elapse (accepts?_eq_none ha (by simp [Task.delivery?])) rfl rfl
  | takeDown h => exact h.timeStep hs ha (accepts?_eq_none ha (by simp [Task.delivery?]))
  | drop clock _ _ timers entries =>
    have gone : t.ledger.findExact? key = none := by
      rw [Ledger.findExact?, entries]
      rfl
    refine .wait (accepts?_eq_none ha (by simp [Task.delivery?])) clock ?_ ?_
    · intro outstanding
      rw [gone] at outstanding
      cases outstanding
    · intro q hq
      rw [gone] at hq
      cases hq

end State

end FileRelay
