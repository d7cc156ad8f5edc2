import FileRelay.Proofs.Fate

/-!
# The course of a run

A run may be told with the states in which a task was done, in order: its *course*.  What
holds at one moment and no longer, or not yet, at another is then a matter of where the
moments stand in the course.  The main fact is what becomes of an outstanding request: along a
course it stays outstanding, or one of the steps ends it.
-/

namespace FileRelay.State

/-- A run, with the states in which a task was done, in order. -/
inductive Course (s : State) : List State → State → Prop
  | start : Course s [] s
  /-- The next task is done. -/
  | work {steps : List State} {t u : State} (h : Course s steps t) (step : t.step = some u)
      (fair : ¬ t.Trespasses) : Course s (steps ++ [t]) u
  /-- Somebody makes a call. -/
  | call {steps : List State} {t : State} (h : Course s steps t) (call : Call)
      (self : RequestId) : Course s steps (t.push [.issue call self])
  /-- The counter of the id pool comes to stand elsewhere. -/
  | rewind {steps : List State} {t : State} (h : Course s steps t) (n : UInt32) :
      Course s steps { t with pool := t.pool.rewind n }

variable {s t u x : State} {steps before after : List State} {p : Pending}

namespace Course

theorem reaches (h : Course s steps t) : Reaches s t := by
  induction h with
  | start => exact .refl s
  | work _ step fair ih => exact ih.tail (.work step fair)
  | call _ call self ih => exact ih.tail (.call call self)
  | rewind _ n ih => exact ih.tail (.rewind n)

theorem trans (h : Course s before t) (k : Course t after u) : Course s (before ++ after) u := by
  induction k with
  | start =>
    rw [List.append_nil]
    exact h
  | work _ step fair ih =>
    rw [← List.append_assoc]
    exact .work ih step fair
  | call _ call self ih => exact .call ih call self
  | rewind _ n ih => exact .rewind ih n

/-- A course may be cut at any of its steps. -/
theorem split (h : Course s (before ++ x :: after) u) :
    ∃ y, Course s before x ∧ x.step = some y ∧ ¬ x.Trespasses ∧ Course y after u := by
  generalize hsteps : before ++ x :: after = steps at h
  induction h generalizing after with
  | start => simp at hsteps
  | @work steps t u h step fair ih =>
    rcases List.eq_nil_or_concat after with rfl | ⟨init, last, rfl⟩
    · obtain ⟨rfl, hx⟩ := List.append_inj' hsteps rfl
      cases hx
      exact ⟨u, h, step, fair, .start⟩
    · rw [List.concat_eq_append, ← List.cons_append, ← List.append_assoc] at hsteps
      obtain ⟨rfl, hlast⟩ := List.append_inj' hsteps rfl
      cases hlast
      obtain ⟨y, hx, stepx, fairx, hy⟩ := ih rfl
      refine ⟨y, hx, stepx, fairx, ?_⟩
      rw [List.concat_eq_append]
      exact hy.work step fair
  | call _ call self ih =>
    obtain ⟨y, hx, stepx, fairx, hy⟩ := ih hsteps
    exact ⟨y, hx, stepx, fairx, hy.call call self⟩
  | rewind _ n ih =>
    obtain ⟨y, hx, stepx, fairx, hy⟩ := ih hsteps
    exact ⟨y, hx, stepx, fairx, hy.rewind n⟩

theorem split_of_step (h : Course s (before ++ x :: after) u) (step : x.step = some t) :
    Course s before x ∧ ¬ x.Trespasses ∧ Course t after u := by
  obtain ⟨y, toX, step', fair, fromY⟩ := h.split
  obtain rfl := Option.some.inj (step.symm.trans step')
  exact ⟨toX, fair, fromY⟩

/-- A course leads to each of the states that it passes. -/
theorem upTo (h : Course s steps u) (cut : steps ++ [u] = before ++ x :: after) :
    Course s before x := by
  rcases List.eq_nil_or_concat after with rfl | ⟨init, last, rfl⟩
  · obtain ⟨rfl, same⟩ := List.append_inj' cut rfl
    cases same
    exact h
  · rw [List.concat_eq_append, ← List.cons_append, ← List.append_assoc] at cut
    obtain ⟨rfl, -⟩ := List.append_inj' cut rfl
    obtain ⟨_, toX, -⟩ := h.split
    exact toX

end Course

/-- Every run has a course. -/
theorem Reaches.exists_course (h : Reaches s t) : ∃ steps, Course s steps t := by
  induction h with
  | refl => exact ⟨[], .start⟩
  | tail _ hn ih =>
    obtain ⟨steps, h⟩ := ih
    cases hn with
    | work step fair => exact ⟨_, h.work step fair⟩
    | call call self => exact ⟨_, h.call call self⟩
    | rewind n => exact ⟨_, h.rewind n⟩

/-! ## The life of a request -/

/-- What has become of a request that was outstanding once. -/
inductive Life (s : State) (p : Pending) (u : State) : Prop
  | outstanding {q : Pending} (same : p.Continues q)
      (entry : u.trace p.key = { outstanding := [q] })
  | settled {v w : State} {q : Pending} {ending : Ending} (before : Reaches s v)
      (ends : v.Ends w q ending) (after : Reaches w u) (same : p.Continues q)
      (left : (w.trace p.key).Settled q ending) (settled : (u.trace p.key).Settled q ending)
  | lost (client : p.owner.isOperation = false) (gone : u.managerAlive = false)
      (nothing : u.trace p.key = {})

/-- Along a course a request that is outstanding stays so, or one of the steps ends it, or it
goes down with its manager, for whom nobody waits but a client. -/
theorem Course.life (course : Course s steps u) (hs : s.Sane)
    (known : p.key.serial < s.ledger.nextSerial) (entry : s.trace p.key = { outstanding := [p] }) :
    (∃ q, p.Continues q ∧ u.trace p.key = { outstanding := [q] }) ∨
    (∃ before x after y q ending, steps = before ++ x :: after ∧ Course s before x ∧
      x.Ends y q ending ∧ Course y after u ∧ p.Continues q ∧
      (y.trace p.key).Settled q ending ∧ (u.trace p.key).Settled q ending) ∨
    p.owner.isOperation = false ∧ u.managerAlive = false ∧ u.trace p.key = {} := by
  induction course with
  | start => exact .inl ⟨p, .refl p, entry⟩
  | @work steps u v course step fair ih =>
    have next : Next u v := .work step fair
    have sane := course.reaches.sane hs
    have known' : p.key.serial < u.ledger.nextSerial :=
      Nat.lt_of_lt_of_le known (course.reaches.nextSerial_le hs)
    rcases ih with ⟨q, same, entry⟩ |
      ⟨before, x, after, y, q, ending, rfl, hx, ends, hy, same, left, settled⟩ |
      ⟨client, gone, nothing⟩
    · rw [← same.key] at known' entry
      rcases next.turn sane known' entry with
        ⟨r, hqr, entry⟩ | ⟨ending, ended, settled⟩ | ⟨client, gone, nothing⟩
      · exact .inl ⟨r, same.trans hqr, same.key ▸ entry⟩
      · rw [same.key] at settled
        exact .inr (.inl ⟨steps, u, [], v, q, ending, rfl, course, ended, .start, same, settled,
          settled⟩)
      · refine .inr (.inr ⟨?_, gone, same.key ▸ nothing⟩)
        rw [← same.owner.isOperation_eq]
        exact client
    · refine .inr (.inl ⟨before, x, after ++ [u], y, q, ending, by simp, hx, ends,
        hy.work step fair, same, left, ?_⟩)
      rw [← same.key] at settled known' ⊢
      exact next.settled sane known' settled
    · exact .inr (.inr ⟨client, next.gone_of_gone sane.upkeep gone,
        next.nothing sane known' nothing⟩)
  | @call steps t course call self ih =>
    have pushed : Change t (.issue call self) t (t.push [.issue call self]) := .again t call self
    rw [trace_push_quiet t (by simp [Task.owed?]), pushed.stays.1]
    rcases ih with stays | ⟨before, x, after, y, q, ending, rfl, hx, ends, hy, ended⟩ | lost
    · exact .inl stays
    · exact .inr (.inl ⟨before, x, after, y, q, ending, rfl, hx, ends, hy.call call self, ended⟩)
    · exact .inr (.inr lost)
  | rewind course n ih =>
    rcases ih with stays | ⟨before, x, after, y, q, ending, rfl, hx, ends, hy, ended⟩ | lost
    · exact .inl stays
    · exact .inr (.inl ⟨before, x, after, y, q, ending, rfl, hx, ends, hy.rewind n, ended⟩)
    · exact .inr (.inr lost)

/-- What becomes of an outstanding request. -/
theorem Reaches.life (h : Reaches s u) (hs : s.Sane) (known : p.key.serial < s.ledger.nextSerial)
    (entry : s.trace p.key = { outstanding := [p] }) : Life s p u := by
  obtain ⟨steps, course⟩ := h.exists_course
  rcases course.life hs known entry with ⟨q, same, entry⟩ |
    ⟨before, x, after, y, q, ending, -, hx, ends, hy, same, left, settled⟩ |
    ⟨client, gone, nothing⟩
  · exact .outstanding same entry
  · exact .settled hx.reaches ends hy.reaches same left settled
  · exact .lost client gone nothing

/-- What is outstanding under the key of a request is that request. -/
theorem Reaches.continues {q : Pending} (h : Reaches s u) (hs : s.Sane)
    (known : p.key.serial < s.ledger.nextSerial) (entry : s.trace p.key = { outstanding := [p] })
    (found : u.ledger.findExact? p.key = some q) : p.Continues q := by
  rw [findExact?_eq] at found
  cases h.life hs known entry with
  | outstanding same entry =>
    rw [entry] at found
    cases found
    exact same
  | settled _ _ _ _ _ settled =>
    rw [settled.outstanding_eq_nil] at found
    cases found
  | lost _ _ nothing =>
    rw [nothing] at found
    cases found

/-! ## Two steps of a course -/

/-- A step of a course leads to where the course ends. -/
theorem Course.reaches_of_mem (h : Course s steps u) (mem : x ∈ steps) :
    ∃ y, x.step = some y ∧ ¬ x.Trespasses ∧ Reaches s x ∧ Reaches y u := by
  obtain ⟨before, after, rfl⟩ := List.append_of_mem mem
  obtain ⟨y, toX, step, fair, fromY⟩ := h.split
  exact ⟨y, step, fair, toX.reaches, fromY.reaches⟩

/-- Of two steps of a course, one comes before the other unless they are in the same state. -/
theorem Course.compare {y : State} (h : Course s steps u) (hx : x ∈ steps) (hy : y ∈ steps) :
    x = y ∨ (∃ z, x.step = some z ∧ Reaches z y) ∨ ∃ z, y.step = some z ∧ Reaches z x := by
  induction h with
  | start => cases hx
  | @work steps t u h step fair ih =>
    have last : ∀ z ∈ steps, ∃ w, z.step = some w ∧ Reaches w t := by
      intro z hz
      obtain ⟨w, step, -, -, toT⟩ := h.reaches_of_mem hz
      exact ⟨w, step, toT⟩
    rcases List.mem_append.1 hx with hx | hx <;> rcases List.mem_append.1 hy with hy | hy
    · exact ih hx hy
    · exact .inr (.inl (List.mem_singleton.1 hy ▸ last x hx))
    · exact .inr (.inr (List.mem_singleton.1 hx ▸ last y hy))
    · exact .inl ((List.mem_singleton.1 hx).trans (List.mem_singleton.1 hy).symm)
  | call _ _ _ ih => exact ih hx hy
  | rewind _ _ ih => exact ih hx hy

/-- A step of a course ended a request in a given way. -/
def EndedIn (steps : List State) (p q : Pending) (ending : Ending) : Prop :=
  p.Continues q ∧ ∃ x ∈ steps, ∃ y, x.Ends y q ending

theorem EndedIn.concat {q : Pending} {ending : Ending} (h : EndedIn steps p q ending)
    (x : State) : EndedIn (steps ++ [x]) p q ending := by
  obtain ⟨same, y, hy, ends⟩ := h
  exact ⟨same, y, List.mem_append_left _ hy, ends⟩

/-- Once a request has ended its callback is owed or was invoked. -/
theorem Course.settled_of_ended {q : Pending} {ending : Ending} (course : Course s steps u)
    (hs : s.Sane) (fate : s.Fate p.key) (h : EndedIn steps p q ending) :
    (u.trace p.key).Settled q ending := by
  obtain ⟨same, x, mem, y, ends⟩ := h
  obtain ⟨z, step, -, toX, fromZ⟩ := course.reaches_of_mem mem
  obtain rfl := Option.some.inj (ends.step.symm.trans step)
  rw [← same.key] at fate ⊢
  exact ends.settled (toX.sane hs) (toX.fate hs fate) fromZ

/-- A request ends once. -/
theorem Course.ended_once {q r : Pending} {ending other : Ending} (course : Course s steps u)
    (hs : s.Sane) (fate : s.Fate p.key) (known : p.key.serial < s.ledger.nextSerial)
    (h : EndedIn steps p q ending) (k : EndedIn steps p r other) : q = r ∧ ending = other := by
  obtain ⟨hq, x, hx, x', first⟩ := h
  obtain ⟨hr, y, hy, y', second⟩ := k
  -- Once ended it stays so, and cannot be ended again.
  have past : ∀ {x y x' y' : State} {q r : Pending} {ending other : Ending}, p.Continues q →
      p.Continues r → x ∈ steps → x.Ends x' q ending → y.Ends y' r other →
      ¬ ∃ z, x.step = some z ∧ Reaches z y := by
    rintro x y x' y' q r ending other hq hr hx first second ⟨z, step, later⟩
    obtain rfl := Option.some.inj (first.step.symm.trans step)
    obtain ⟨-, -, -, toX, -⟩ := course.reaches_of_mem hx
    have toX' := toX.tail first.next
    have absent : y.ledger.findExact? p.key = none :=
      later.absent (toX'.sane hs) (toX'.fate hs fate)
        (Nat.lt_of_lt_of_le known (toX'.nextSerial_le hs)) (hq.key ▸ first.after)
    rw [← hr.key, second.before] at absent
    cases absent
  rcases course.compare hx hy with rfl | earlier | later
  · have same : some q = some r := by
      rw [← first.before, ← second.before, hq.key, hr.key]
    obtain rfl := Option.some.inj same
    obtain ⟨task, rest, ha, ends⟩ := first.task
    obtain ⟨task', rest', ha', ends'⟩ := second.task
    obtain ⟨rfl, -⟩ := List.cons.inj (ha.symm.trans ha')
    exact ⟨rfl, Option.some.inj (ends.symm.trans ends')⟩
  · exact (past hq hr hx first second earlier).elim
  · exact (past hr hq hy second first later).elim

/-! ## Choosing a course -/

/-- The states in which a task is done if a run goes on in some given ways. -/
def trail (s : State) : List Choice → List State
  | [] => []
  | choice :: rest =>
    match s.take? choice with
    | none => []
    | some t => if choice matches .work then s :: t.trail rest else t.trail rest

/-- Calls are made one after the other, and after each of them some tasks are done. -/
def calling : List (Call × Nat) → List Choice
  | [] => []
  | (call, n) :: rest => .call call ⟨0⟩ :: (List.replicate n .work ++ calling rest)

theorem course_of_follow? {choices : List Choice} (h : s.follow? choices = some t) :
    Course s (s.trail choices) t := by
  induction choices generalizing s with
  | nil =>
    cases h
    exact .start
  | cons choice choices ih =>
    rw [follow?, Option.bind_eq_some_iff] at h
    obtain ⟨u, hu, h⟩ := h
    simp only [trail, hu]
    cases choice with
    | work =>
      rw [take?] at hu
      split at hu
      · cases hu
      · rename_i fair
        have worked : Course s [s] u := .work .start hu fun ht => fair (trespasses?_iff.2 ht)
        exact worked.trans (ih h)
    | call call self =>
      cases hu
      exact Course.trans (.call .start call self) (ih h)
    | rewind n =>
      cases hu
      exact Course.trans (.rewind .start n) (ih h)

end FileRelay.State
