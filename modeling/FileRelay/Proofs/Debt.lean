import FileRelay.Proofs.Course

/-!
# How a debt is passed on

A step does one of a few things to the trace of a request, and this file lists them.  What
shows of a request late in a run goes back to the steps that brought it about: between a
state in which something does not show yet and one in which it does, there is a step that
makes it show.
-/

namespace FileRelay

/-- What a step may make of the trace of a request.  It is in a state `b`, and does `task`. -/
inductive Trace.Becomes (b : State) (task : Task) : Trace → Trace → Prop
  | stay (trace : Trace) : Becomes b task trace trace
  | enter {p : Pending} {owner : Owner} (named : task.owner? = some owner)
      (same : owner.Continues p.owner) : Becomes b task {} { outstanding := [p] }
  | goOn {p q : Pending} (same : p.Continues q) :
      Becomes b task { outstanding := [p] } { outstanding := [q] }
  | leave {p : Pending} {ending : Ending} (ends : task.ending? b p = some ending) :
      Becomes b task { outstanding := [p] } { owed := [.finish p ending] }
  | lose {p : Pending} : Becomes b task { outstanding := [p] } {}
  | finish {p : Pending} {ending : Ending} (named : task = .finish p ending) :
      Becomes b task { owed := [.finish p ending] } { owed := [.complete p ending] }
  | call {p : Pending} {ending : Ending} {tag : Option String}
      {onSuccess onError onPart : List Call} (named : task = .complete p ending)
      (owner : p.owner = .client tag onSuccess onError onPart) :
      Becomes b task { owed := [.complete p ending] } { paid := [ending.callback p.key tag] }
  | settle {p : Pending} {ending : Ending} {expects : Expectation} {tag : Option String}
      {followUp : List Call} {result : Except Failure Value} (named : task = .complete p ending)
      (owner : p.owner = .operation expects tag followUp) (gives : expects.Gives ending result) :
      Becomes b task { owed := [.complete p ending] }
        { owed := [.done p.key tag result followUp] }
  | pay {request : RequestKey} {tag : Option String} {result : Except Failure Value}
      {followUp : List Call} (named : task = .done request tag result followUp) :
      Becomes b task { owed := [.done request tag result followUp] }
        { paid := [.done request tag result] }

/-- The caller of an operation is to be told its result, or has been told. -/
inductive Trace.Told (key : RequestKey) (tag : Option String) (result : Except Failure Value) :
    Trace → Prop
  | owed (followUp : List Call) : Told key tag result { owed := [.done key tag result followUp] }
  | paid : Told key tag result { paid := [.done key tag result] }

namespace State

variable {b s t u v : State} {task : Task} {rest : List Task} {key : RequestKey} {p : Pending}
  {ending : Ending} {tag : Option String} {result : Except Failure Value} {steps : List State}

/-! ## A step -/

theorem trace_of_pop (ha : b.agenda = task :: rest) (owed : task.owed? = some key)
    (nothing : ({ b with agenda := rest } : State).trace key = {}) :
    b.trace key = { owed := [task] } := by
  have hb : ({ b with agenda := rest } : State).push [task] = b := by
    cases b
    cases ha
    rfl
  rw [← hb, trace_push_of_owed _ owed, nothing]

theorem Pass.becomes (h : Pass task s t) (carries : task.Carries p ending)
    (nothing : s.trace p.key = {}) :
    Trace.Becomes b task { owed := [task] } (t.trace p.key) := by
  cases carries with
  | finish =>
    cases h with
    | finish =>
      rw [trace_push_of_owed _ rfl, nothing]
      exact .finish rfl
  | complete =>
    cases h with
    | wait =>
      rw [trace_push_of_owed _ rfl, nothing]
      exact .stay _
    | client _ owner =>
      rw [trace_emit_of_paid _ (paid?_callback ..), nothing]
      exact .call rfl owner
    | operation _ owner gives =>
      rw [trace_push_of_owed _ rfl, nothing]
      exact .settle rfl owner gives
  | done =>
    cases h with
    | done =>
      rw [trace_emit_of_paid _ rfl, nothing]
      exact .pay rfl

theorem Effect.becomes (h : Effect b task { b with agenda := rest } t)
    (ha : b.agenda = task :: rest) (hs : b.Accounted) (fate : b.Fate key) :
    (b.trace key).Becomes b task (t.trace key) := by
  cases fate with
  | nothing nothing =>
    rcases h.trace_of_nothing ha hs nothing with stays | ⟨-, p, owner, named, same, entry⟩
    · rw [nothing, stays]
      exact .stay _
    · rw [nothing, entry]
      exact .enter named same
  | outstanding known entry =>
    rcases h.trace_of_outstanding ha hs known entry with
      ⟨q, same, stays⟩ | ⟨ending, ends, owed⟩ | ⟨-, -, lost⟩
    · rw [entry, stays]
      exact .goOn same
    · rw [entry, owed]
      exact .leave ends
    · rw [entry, lost]
      exact .lose
  | @settled p ending known own settled =>
    subst own
    by_cases owed : task.owed? = some p.key
    · obtain ⟨carries, nothing⟩ := carries_of_settled ha settled owed
      obtain ⟨u, v, pass, hu, ht⟩ := h.exists_pass ha hs known owed nothing
      rw [trace_of_pop ha owed nothing, ht]
      exact pass.becomes carries hu
    · rw [h.trace_of_absent ha hs known owed settled.outstanding_eq_nil]
      exact .stay _

/-- What goes on in a run leaves a trace as it is, but for the steps. -/
theorem Next.becomes (h : Next s t) (hs : s.Sane) (fate : s.Fate key) :
    t.trace key = s.trace key ∨ ∃ task rest, s.agenda = task :: rest ∧ s.step = some t ∧
      (s.trace key).Becomes s task (t.trace key) := by
  rcases h.cases hs with ⟨task, rest, ha, step, e⟩ | ⟨-, -, -, trace⟩
  · exact .inr ⟨task, rest, ha, step, e.becomes ha hs.accounted fate⟩
  · exact .inl (trace key)

/-- A request whose callback was invoked shows nothing new. -/
theorem Next.paid {event : Event} (h : Next s t) (hs : s.Sane) (fate : s.Fate key)
    (paid : s.trace key = { paid := [event] }) : t.trace key = { paid := [event] } := by
  rcases h.becomes hs fate with same | ⟨task, rest, -, -, becomes⟩
  · exact same.trans paid
  · rw [paid] at becomes
    generalize t.trace key = after at becomes
    cases becomes with
    | stay => rfl

theorem Reaches.paid {event : Event} (h : Reaches s u) (hs : s.Sane) (fate : s.Fate key)
    (paid : s.trace key = { paid := [event] }) : u.trace key = { paid := [event] } :=
  h.invariant (P := fun u => u.trace key = { paid := [event] }) paid fun _ _ hu hn paid =>
    hn.paid (hu.sane hs) (hu.fate hs fate) paid

/-- A step after which a request is outstanding that was not before has registered it. -/
theorem Next.bears {w : State} (hn : Next v w) (hs : v.Sane) (fate : v.Fate p.key)
    (ha : v.agenda = task :: rest) (step : v.step = some w)
    (before : v.ledger.findExact? p.key = none) (after : w.ledger.findExact? p.key = some p) :
    v.Bears w task p := by
  have entry := ((hn.fate hs fate).of_mem (mem_of_findExact? after).1).2
  rw [findExact?_eq] at before
  obtain ⟨first, rest', hf, e⟩ : ∃ first rest', v.agenda = first :: rest' ∧
      (v.trace p.key).Becomes v first (w.trace p.key) := by
    rcases hn.becomes hs fate with same | ⟨first, rest', hf, -, becomes⟩
    · rw [← same, entry] at before
      cases before
    · exact ⟨first, rest', hf, becomes⟩
  obtain ⟨rfl, rfl⟩ := List.cons.inj (ha.symm.trans hf)
  rw [entry] at e
  generalize hv : v.trace p.key = trace at e before
  cases e with
  | stay => cases before
  | @enter _ owner named same =>
    exact ⟨hn, step, ⟨rest, ha⟩, ⟨owner, named, same⟩, hv, entry⟩
  | goOn => cases before

/-- The task that owes a callback is all that shows of its request. -/
theorem Fate.carries (fate : s.Fate key) (ha : s.agenda = task :: rest)
    (owed : task.owed? = some key) :
    s.trace key = { owed := [task] } ∧ ∃ p ending, p.key = key ∧ task.Carries p ending := by
  have first : (s.trace key).owed ≠ [] := by
    rw [trace, ha, List.filter_cons_of_pos (by simpa using owed)]
    exact List.cons_ne_nil _ _
  cases fate with
  | nothing nothing =>
    rw [nothing] at first
    exact (first rfl).elim
  | outstanding _ entry =>
    rw [entry] at first
    exact (first rfl).elim
  | @settled p ending _ own settled =>
    subst own
    obtain ⟨carries, nothing⟩ := carries_of_settled ha settled owed
    exact ⟨trace_of_pop ha owed nothing, p, ending, rfl, carries⟩

/-! ## A run -/

/-- Between a state whose trace is not of some kind yet and one whose trace is, there is a step
that makes it so. -/
theorem Course.exists_turn {P : Trace → Prop} (course : Course s steps u)
    (not_yet : ¬ P (s.trace key)) (shows : P (u.trace key)) :
    ∃ before x after y, steps = before ++ x :: after ∧ Course s before x ∧ Next x y ∧
      Course s (before ++ [x]) y ∧ Course y after u ∧ ¬ P (x.trace key) ∧
      P (y.trace key) := by
  induction course with
  | start => exact (not_yet shows).elim
  | @work steps t u course step fair ih =>
    by_cases already : P (t.trace key)
    · obtain ⟨before, x, after, y, rfl, toX, next, toY, fromY, turn⟩ := ih already
      exact ⟨before, x, after ++ [t], y, by simp, toX, next, toY, fromY.work step fair, turn⟩
    · exact ⟨steps, t, [], u, rfl, course, .work step fair, course.work step fair, .start, already,
        shows⟩
  | @call steps t course call self ih =>
    rw [trace_push_quiet t (by simp [Task.owed?])] at shows
    obtain ⟨before, x, after, y, cut, toX, next, toY, fromY, turn⟩ := ih shows
    exact ⟨before, x, after, y, cut, toX, next, toY, fromY.call call self, turn⟩
  | rewind _ n ih =>
    obtain ⟨before, x, after, y, cut, toX, next, toY, fromY, turn⟩ := ih shows
    exact ⟨before, x, after, y, cut, toX, next, toY, fromY.rewind n, turn⟩

/-- What a caller is told comes of a step that completes the request. -/
theorem Next.exists_complete (h : Next s t) (hs : s.Sane) (fate : s.Fate key)
    (not_yet : ¬ (s.trace key).Told key tag result) (told : (t.trace key).Told key tag result) :
    ∃ p ending rest expects followUp, s.agenda = .complete p ending :: rest ∧ p.key = key ∧
      p.owner = .operation expects tag followUp ∧ expects.Gives ending result ∧
      s.step = some t ∧ t.trace key = { owed := [.done key tag result followUp] } := by
  rcases h.becomes hs fate with same | ⟨task, rest, ha, step, becomes⟩
  · exact (not_yet (same ▸ told)).elim
  · generalize hx : s.trace key = before at becomes not_yet
    generalize hy : t.trace key = after at becomes told
    cases becomes with
    | stay => exact (not_yet told).elim
    | enter | goOn | leave | lose | finish => cases told
    | @call p ending tag' _ _ _ named owner =>
      generalize he : ending.callback p.key tag' = event at told
      cases told
      unfold Ending.callback at he
      split at he <;> cases he
    | @settle p ending expects _ followUp _ named owner gives =>
      cases told
      exact ⟨p, ending, rest, expects, followUp, named ▸ ha, rfl, owner, gives, step, rfl⟩
    | pay =>
      cases told
      exact (not_yet (.owed _)).elim

/-! ## From the start on -/

section start

variable {s₀ : State} (start : Start s₀)
include start

theorem Course.sane (course : Course s₀ steps u) : u.Sane := course.reaches.sane start.sane

theorem Course.fate (course : Course s₀ steps u) (key : RequestKey) : u.Fate key :=
  course.reaches.fate start.sane (start.fate key)

/-- What shows of a request at some time in a run goes back to a step that registered it. -/
theorem Course.exists_bears (course : Course s₀ steps u) (shows : u.trace key ≠ {}) :
    ∃ before v after w task p, steps = before ++ v :: after ∧ v.Bears w task p ∧ p.key = key ∧
      Course s₀ (before ++ [v]) w ∧ Course w after u := by
  have nothing : s₀.trace key = {} := by cases start <;> rfl
  obtain ⟨before, v, after, w, cut, toV, next, toW, fromW, none, some⟩ :=
    course.exists_turn (P := fun trace => trace ≠ {}) (not_not_intro nothing) shows
  rw [not_not] at none
  rcases next.becomes (toV.sane start) (toV.fate start key) with
    same | ⟨task, rest, ha, step, becomes⟩
  · exact (some (same.trans none)).elim
  · generalize hw : w.trace key = trace at becomes some
    rw [none] at becomes
    cases becomes with
    | stay => exact (some rfl).elim
    | @enter p owner named same =>
      obtain ⟨mem, rfl⟩ := mem_of_trace (congrArg Trace.outstanding hw)
      exact ⟨before, v, after, w, task, p, cut,
        ⟨next, step, ⟨rest, ha⟩, ⟨owner, named, same⟩, none, hw⟩, rfl, toW, fromW⟩

end start

/-! ## Choosing a run -/

/-- A run that can be followed shows a request that a call registers in it, and what is then so of
the states before and after that step and at the end. -/
theorem exists_bears_of_run {s₀ : State} {choices later : List Choice} {call : Call}
    {self : RequestId} {check : State → State → State → Bool} (start : Start s₀)
    (run : (s₀.follow? choices).any fun b =>
      ((b.push [.issue call self]).take? .work).any fun w => (w.follow? later).any fun u =>
        (b.ledger.findExact? key).isNone && (w.ledger.findExact? key).isSome && check b w u) :
    ∃ earlier b w p u, p.key = key ∧
      Course s₀ (earlier ++ b.push [.issue call self] :: w.trail later) u ∧
      (b.push [.issue call self]).Bears w (.issue call self) p ∧ check b w u := by
  simp only [Option.any_eq_true, Bool.and_eq_true, Option.isNone_iff_eq_none,
    Option.isSome_iff_exists] at run
  obtain ⟨b, hb, w, hw, u, hu, ⟨before, p, after⟩, checked⟩ := run
  obtain ⟨mem, rfl⟩ := mem_of_findExact? after
  rw [take?, Option.ite_none_left_eq_some] at hw
  obtain ⟨fair, step⟩ := hw
  have toV := (course_of_follow? hb).call call self
  have worked := toV.work step fun ht => fair (trespasses?_iff.2 ht)
  have whole := worked.trans (course_of_follow? hu)
  rw [List.append_assoc] at whole
  refine ⟨_, b, w, p, u, rfl, whole, ?_, checked⟩
  exact Next.bears (.work step fun ht => fair (trespasses?_iff.2 ht)) (toV.sane start)
    (toV.fate start _) rfl step before after

end State

end FileRelay
