import FileRelay.Proofs.Debt

/-!
# Nesting

The agenda is a stack.  A step takes its first task away and puts others in front, so what stands
behind a task stays there until the task is done: all that a task sets off is done before what was
behind it.  The same goes for callbacks.  If one is owed, and nothing behind the task that owes it
owes another, then the other is not owed any more by the time that the first is invoked.
-/

namespace FileRelay.State

variable {s₀ b s t u y : State} {task : Task} {front back rest : List Task} {key other : RequestKey}
  {steps : List State}

/-! ## A step -/

/-- Tasks are put in front of what is left of the agenda. -/
theorem Effect.suffix (h : Effect b task { b with agenda := rest } t) : rest <:+ t.agenda := by
  cases h with
  | change _ _ h => exact h.suffix
  | settle h pass k =>
    obtain ⟨-, -, -, -, -, tasks, agenda, -⟩ := pass.frame
    exact h.suffix.trans (.trans ⟨tasks, agenda.symm⟩ k.suffix)
  | keepManager | dropManager | keepMount => exact List.suffix_rfl
  | dropMount => exact List.suffix_append _ _

/-- What stands behind a task stays there until the task is done. -/
theorem Next.ahead_or_first (hn : Next s t) (hs : s.Sane) (ha : s.agenda = front ++ task :: back) :
    (∃ front, t.agenda = front ++ task :: back) ∨ s.agenda = task :: back ∧ s.step = some t := by
  cases hn with
  | work step fair =>
    obtain ⟨first, rest, hf, e⟩ := hs.upkeep.exists_effect fair step
    obtain ⟨new, agenda⟩ := e.suffix
    cases front with
    | nil => exact .inr ⟨ha, step⟩
    | cons x front =>
      rw [List.cons_append] at ha
      obtain ⟨-, rfl⟩ := List.cons.inj (hf.symm.trans ha)
      exact .inl ⟨new ++ front, by rw [← agenda, List.append_assoc]⟩
  | call call self =>
    exact .inl ⟨.issue call self :: front, congrArg (Task.issue call self :: ·) ha⟩
  | rewind n => exact .inl ⟨front, ha⟩

/-! ## A run -/

/-- Along a course a task stays ahead with what is behind it, or one of the steps does it. -/
theorem Course.ahead_or_done (course : Course y steps u) (hy : y.Sane)
    (ha : y.agenda = front ++ task :: back) :
    (∃ front, u.agenda = front ++ task :: back) ∨
      ∃ before x after, steps = before ++ x :: after ∧ x.agenda = task :: back := by
  induction course with
  | start => exact .inl ⟨front, ha⟩
  | @work steps t u course step fair ih =>
    rcases ih with ⟨front, ha⟩ | ⟨before, x, after, rfl, hx⟩
    · refine ((Next.work step fair).ahead_or_first (course.reaches.sane hy) ha).imp_right ?_
      rintro ⟨first, -⟩
      exact ⟨steps, t, [], rfl, first⟩
    · exact .inr ⟨before, x, after ++ [t], by simp, hx⟩
  | call _ call self ih =>
    refine ih.imp_left ?_
    rintro ⟨front, ha⟩
    exact ⟨.issue call self :: front, congrArg (Task.issue call self :: ·) ha⟩
  | rewind _ n ih => exact ih

/-! ## Callbacks -/

/-- A callback is owed, and nothing behind the task that owes it owes a given other one. -/
def Precedes (s : State) (key other : RequestKey) : Prop :=
  ∃ front task back, s.agenda = front ++ task :: back ∧ task.owed? = some key ∧
    ∀ x ∈ back, x.owed? ≠ some other

/-- A task that owes a callback is the only one that owes it. -/
theorem Fate.not_mem_back (fate : s.Fate key) (ha : s.agenda = front ++ task :: back)
    (owed : task.owed? = some key) : (∀ x ∈ front, x.owed? ≠ some key) ∧
      ∀ x ∈ back, x.owed? ≠ some key := by
  have one : ((front ++ task :: back).filter (·.owed? = some key)).length ≤ 1 := by
    rw [← ha]
    show (s.trace key).owed.length ≤ 1
    cases fate with
    | nothing nothing => simp [nothing]
    | outstanding _ entry => simp [entry]
    | settled _ _ settled =>
      rcases settled.owed_or_paid with ⟨x, -, owed, -⟩ | ⟨x, -, owed, -⟩ <;> simp [owed]
  rw [List.filter_append, List.filter_cons_of_pos (by simpa using owed), List.length_append,
    List.length_cons] at one
  have none : ∀ l : List Task, (l.filter (·.owed? = some key)).length = 0 →
      ∀ x ∈ l, x.owed? ≠ some key := by
    intro l hl x hx
    have empty := List.filter_eq_nil_iff.1 (List.length_eq_zero_iff.1 hl) x hx
    simpa using empty
  exact ⟨none front (by omega), none back (by omega)⟩

/-- A callback that is owed comes before one that is not owed yet. -/
theorem precedes_of_not_owed (none : (s.trace other).owed = []) (owed : (s.trace key).owed ≠ []) :
    s.Precedes key other := by
  obtain ⟨task, hx⟩ := List.exists_mem_of_ne_nil _ owed
  obtain ⟨ahead, owes⟩ := List.mem_filter.1 hx
  obtain ⟨front, back, ha⟩ := List.append_of_mem ahead
  refine ⟨front, task, back, ha, by simpa using owes, ?_⟩
  intro x hx owes'
  have shows : x ∈ (s.trace other).owed :=
    List.mem_filter.2 ⟨by simp [ha, hx], by simpa using owes'⟩
  rw [none] at shows
  cases shows

theorem owed_eq_nil (ha : s.agenda = task :: rest) (owed : task.owed? = some key)
    (ne : other ≠ key) (clear : ∀ x ∈ rest, x.owed? ≠ some other) :
    (s.trace other).owed = [] := by
  rw [trace, ha, List.filter_eq_nil_iff]
  intro x hx
  rw [decide_eq_true_eq]
  rcases List.mem_cons.1 hx with rfl | hx
  · rw [owed]
    exact fun h => ne (Option.some.inj h).symm
  · exact clear x hx

/-- Once the first of two callbacks is next, the other is owed no more. -/
theorem Precedes.not_owed (h : s.Precedes key other) (fate : s.Fate key)
    (ha : s.agenda = task :: rest) (owed : task.owed? = some key) (ne : other ≠ key) :
    (s.trace other).owed = [] := by
  obtain ⟨front, first, back, ahead, owed', clear⟩ := h
  have same : rest = back := by
    cases front with
    | nil => exact (List.cons.inj (ha.symm.trans ahead)).2
    | cons x front =>
      have hx := (List.cons.inj (ha.symm.trans ahead)).1
      exact ((fate.not_mem_back ahead owed').1 task (hx ▸ List.mem_cons_self) owed).elim
  exact owed_eq_nil ha owed ne (same ▸ clear)

/-- What is not owed is not owed after a step that brings another callback about. -/
theorem not_owed_of_becomes {before after : Trace} (h : before.Becomes s task after)
    (owed : task.owed? = some key) (none : before.owed = []) : after.owed = [] := by
  cases h with
  | stay => exact none
  | enter | goOn | lose => rfl
  | leave ends =>
    cases task with
    | finish | complete | done => cases ends
    | _ => cases owed
  | finish | call | settle | pay => cases none

/-- A step keeps the order of two callbacks, as long as the first is owed. -/
theorem Next.precedes (hn : Next s t) (hs : s.Sane) (fate : s.Fate other) (ne : other ≠ key)
    (still : (t.trace key).owed ≠ []) (h : s.Precedes key other) : t.Precedes key other := by
  obtain ⟨front, task, back, ha, owed, clear⟩ := h
  rcases hn.ahead_or_first hs ha with ⟨front, ahead⟩ | ⟨first, step⟩
  · exact ⟨front, task, back, ahead, owed, clear⟩
  · -- The task that owes the first callback is done, so that nothing at all owes the other.
    have none := owed_eq_nil first owed ne clear
    refine precedes_of_not_owed ?_ still
    rcases hn.becomes hs fate with same | ⟨first', rest, hf, -, becomes⟩
    · rw [same, none]
    · obtain ⟨rfl, -⟩ := List.cons.inj (first.symm.trans hf)
      exact not_owed_of_becomes becomes owed none

/-- Once a callback has been invoked it is owed no more. -/
theorem Next.not_owed_of_settled {p : Pending} {ending : Ending} (hn : Next s t) (hs : s.Sane)
    (fate : s.Fate p.key) (settled : (s.trace p.key).Settled p ending)
    (none : (s.trace p.key).owed = []) : (t.trace p.key).owed = [] := by
  rcases hn.becomes hs fate with same | ⟨task, rest, -, -, becomes⟩
  · rw [same, none]
  · generalize s.trace p.key = before at settled none becomes
    generalize t.trace p.key = after at becomes ⊢
    cases settled with
    | owed => cases none
    | paid =>
      cases becomes
      rfl

theorem Reaches.not_owed {p : Pending} {ending : Ending} (h : Reaches s u) (hs : s.Sane)
    (fate : s.Fate p.key) (known : p.key.serial < s.ledger.nextSerial)
    (settled : (s.trace p.key).Settled p ending) (none : (s.trace p.key).owed = []) :
    (u.trace p.key).owed = [] :=
  h.invariant (P := fun u => (u.trace p.key).owed = []) none fun _ _ hu hn none =>
    hn.not_owed_of_settled (hu.sane hs) (hu.fate hs fate) (hu.settled hs known settled) none

/-- A run keeps the order of two callbacks, as long as the first is owed. -/
theorem Course.precedes {p : Pending} {ending : Ending} (course : Course s steps u) (hs : s.Sane)
    (fate : ∀ key, s.Fate key) (known : p.key.serial < s.ledger.nextSerial)
    (settled : (s.trace p.key).Settled p ending) (ne : other ≠ p.key)
    (h : s.Precedes p.key other) : u.Precedes p.key other ∨ (u.trace p.key).owed = [] := by
  have step : ∀ {u t : State}, Reaches s u → Next u t →
      u.Precedes p.key other ∨ (u.trace p.key).owed = [] →
      t.Precedes p.key other ∨ (t.trace p.key).owed = [] := by
    intro u t reached next h
    have sane := reached.sane hs
    have fate : ∀ key, u.Fate key := fun key => reached.fate hs (fate key)
    rcases h with h | none
    · by_cases still : (t.trace p.key).owed = []
      · exact .inr still
      · exact .inl (next.precedes sane (fate other) ne still h)
    · exact .inr (next.not_owed_of_settled sane (fate _) (reached.settled hs known settled) none)
  exact course.reaches.invariant (.inl h) fun _ _ hu hn => step hu hn

end FileRelay.State
