import FileRelay.Proofs.Rounds
import FileRelay.Proofs.Streams

/-!
# What observers see of the life of a request

An observer that was there when a request was registered is told of its creation once, and of its
end once if it has one: with the outcome that the callback was given before.  The order in which
it is told is another matter.  Rounds nest: whoever is called in the middle of a round may call
back, and what comes of that is told to all observers before the round goes on.  So an observer
that comes late in a round may hear of the end of a request before it hears of its creation.  It
hears of all in order if and only if nobody ever overtakes the creation or the end like that, and
that takes a call made in the middle of a round (`Course.interrupted_of_overtaken`).
-/

namespace FileRelay

/-- Where a moment stands in the life of a request: first its creation, last its end. -/
def Moment.rank : Moment → Nat
  | .created _ => 0
  | .delivered | .progress => 1
  | .finished .. => 2

/-- Whether a moment is the creation of a request. -/
def Moment.begins : Moment → Bool
  | .created _ => true
  | _ => false

/-- Whether a moment is the end of a request. -/
def Moment.ends : Moment → Bool
  | .finished .. => true
  | _ => false

namespace Moment

variable {moment : Moment}

theorem rank_of_between (h : moment.between) : moment.rank = 1 := by
  cases moment with
  | delivered | progress => rfl
  | created | finished => cases h

theorem rank_pos (h : moment.begins = false) : 1 ≤ moment.rank := by
  cases moment with
  | created => cases h
  | _ => simp [rank]

theorem rank_le_of_not_ends (h : moment.ends = false) : moment.rank ≤ 1 := by
  cases moment with
  | finished => cases h
  | _ => simp [rank]

theorem begins_of_between (h : moment.between) : moment.begins = false ∧ moment.ends = false := by
  cases moment with
  | delivered | progress => exact ⟨rfl, rfl⟩
  | created | finished => cases h

theorem begins_of_ends (h : moment.ends) : moment.begins = false := by
  cases moment with
  | finished => rfl
  | _ => cases h

end Moment

namespace State

variable {s₀ s t u v w x : State} {task : Task} {rest : List Task} {key : RequestKey}
  {p q : Pending} {ending : Ending} {moment : Moment} {moments : List Moment} {i : Nat}
  {steps : List State} {listener : Option String}

/-- What an observer has been told of a request in the steps of a course, and what it is still to
be told. -/
def tale (i : Nat) (key : RequestKey) (steps : List State) (u : State) : List Moment :=
  told i key steps ++ u.untold i key

/-- The creation of a request, or its end, is one of several moments that an observer is still to
be told of. -/
def Overtaken (i : Nat) (key : RequestKey) (s : State) : Prop :=
  ∃ moment ∈ s.untold i key, moment.between = false ∧ s.untold i key ≠ [moment]

/-! ## How far a request has come -/

/-- How far a request has come to its end, and what has been announced of that. -/
inductive Phase (p : Pending) (steps : List State) (u : State) : List Moment → Prop
  | outstanding {q : Pending} (same : p.Continues q)
      (entry : u.trace p.key = { outstanding := [q] }) (secret : u.unannounced p.key = []) :
      Phase p steps u []
  /-- It went down with its manager. -/
  | lost (nothing : u.trace p.key = {}) (secret : u.unannounced p.key = []) : Phase p steps u []
  | finishing {q : Pending} {ending : Ending} (ended : EndedIn steps p q ending)
      (owed : u.trace p.key = { owed := [.finish q ending] }) (secret : u.unannounced p.key = []) :
      Phase p steps u []
  /-- Its callback comes before the announcement of its end. -/
  | calling {q : Pending} {ending : Ending} {front back : List Task}
      (ended : EndedIn steps p q ending) (settled : (u.trace p.key).Settled q ending)
      (begun : ∀ r ending, .finish r ending ∉ (u.trace p.key).owed)
      (agenda : u.agenda =
        front ++ .announce p.key (.finished q.kind ending.outcome) :: back)
      (secret : u.unannounced p.key = [.finished q.kind ending.outcome])
      (clear : ∀ x ∈ back, x.owed? ≠ some p.key) : Phase p steps u []
  | announced {q : Pending} {ending : Ending} {event : Event} (ended : EndedIn steps p q ending)
      (paid : u.trace p.key = { paid := [event] }) (reports : event.Reports q ending)
      (secret : u.unannounced p.key = []) : Phase p steps u [.finished q.kind ending.outcome]

/-- One end is announced at most. -/
theorem Phase.length_le (h : Phase p steps u moments) : moments.length ≤ 1 := by
  cases h <;> simp

/-- A request of which a round tells that it goes on has not ended. -/
theorem Phase.of_outstanding (h : Phase p steps u moments) (mem : q ∈ u.ledger.entries)
    (own : q.key = p.key) : moments = [] := by
  have entry : q ∈ (u.trace p.key).outstanding := mem_outstanding.2 ⟨mem, own⟩
  cases h with
  | announced _ paid =>
    rw [paid] at entry
    cases entry
  | _ => rfl

/-- Of a request that has ended the end has been announced, or what comes before that is ahead. -/
theorem Phase.of_settled (h : Phase p steps u moments) (settled : (u.trace p.key).Settled q ending)
    (once : ∀ r other, EndedIn steps p r other → r = q ∧ other = ending) :
    moments = [.finished q.kind ending.outcome] ∨ ∃ task ∈ u.agenda,
      task.owed? = some p.key ∨ ∃ moment, moment.ends ∧ task = .announce p.key moment := by
  cases h with
  | outstanding _ entry =>
    rw [entry] at settled
    cases settled
  | lost nothing =>
    rw [nothing] at settled
    cases settled
  | @finishing r other _ owed =>
    have mem : .finish r other ∈ (u.trace p.key).owed := by simp [owed]
    obtain ⟨mem, owes⟩ := List.mem_filter.1 mem
    exact .inr ⟨_, mem, .inl (of_decide_eq_true owes)⟩
  | calling _ _ _ agenda =>
    exact .inr ⟨_, agenda ▸ List.mem_append_right _ List.mem_cons_self, .inr ⟨_, rfl, rfl⟩⟩
  | announced ended =>
    obtain ⟨rfl, rfl⟩ := once _ _ ended
    exact .inl rfl

theorem not_announce_of_secret (secret : u.unannounced key = []) (moment : Moment)
    (rest : List Task) : u.agenda ≠ .announce key moment :: rest := by
  intro ha
  rw [unannounced_pop ha, Task.announced?, if_pos rfl] at secret
  cases secret

/-- Nothing is set out to be announced of a request but by the task that is to finish it. -/
theorem Fate.announces?_eq_none (fate : u.Fate key) (ha : u.agenda = task :: rest)
    (other : ∀ q ending, task = .finish q ending → u.trace key ≠ { owed := [task] }) :
    task.announces? key = none := by
  cases task with
  | finish q ending =>
    rw [Task.announces?, if_neg]
    rintro rfl
    exact other q ending rfl (fate.carries ha rfl).1
  | _ => rfl

theorem secret_of_step (step : u.step = some v) (ha : u.agenda = task :: rest)
    (none : task.announces? key = none) (secret : u.unannounced key = []) :
    v.unannounced key = [] := by
  rw [unannounced_of_step step ha, none]
  rw [unannounced_pop ha] at secret
  exact (List.append_eq_nil_iff.1 secret).2

/-- Once the task that is to finish a request has been done, its callback is next. -/
theorem trace_of_finish (hs : u.Sane) (fate : u.Fate q.key)
    (known : q.key.serial < u.ledger.nextSerial) (ha : u.agenda = .finish q ending :: rest)
    (step : u.step = some v) (fair : ¬ u.Trespasses) :
    v.trace q.key = { owed := [.complete q ending] } := by
  obtain ⟨task, rest', ha', e⟩ := hs.upkeep.exists_effect fair step
  obtain ⟨rfl, rfl⟩ := List.cons.inj (ha.symm.trans ha')
  have settled : (u.trace q.key).Settled q ending := by
    rw [(fate.carries ha rfl).1]
    exact .owed .finish
  obtain ⟨-, nothing⟩ := carries_of_settled ha settled rfl
  obtain ⟨x, y, pass, hx, hy⟩ := e.exists_pass ha hs.accounted known rfl nothing
  cases pass with
  | finish => rw [hy, trace_push_of_owed _ rfl, hx]

/-- A request whose callback is due or was invoked is not to be finished any more. -/
theorem not_finish_of_becomes {before after : Trace} (h : before.Becomes u task after)
    (settled : before.Settled q ending) (begun : ∀ r ending, .finish r ending ∉ before.owed) :
    ∀ r ending, .finish r ending ∉ after.owed := by
  have outstanding := settled.outstanding_eq_nil
  cases h with
  | stay => exact begun
  | enter | lose => simp
  | goOn | leave => cases outstanding
  | finish => simp at begun
  | call | settle | pay => simp

/-- What a step makes of how far a request has come: it announces the end of the request, or
nothing more of it. -/
def Turns (p : Pending) (steps : List State) (u v : State) (moments : List Moment) : Prop :=
  (Phase p (steps ++ [u]) v moments ∧
    ∀ moment rest, u.agenda ≠ .announce p.key moment :: rest) ∨
  ∃ moment rest, moments = [] ∧ moment.ends ∧ u.agenda = .announce p.key moment :: rest ∧
    Phase p (steps ++ [u]) v [moment]

section step

variable (hs : u.Sane) (fate : u.Fate p.key) (step : u.step = some v) (fair : ¬ u.Trespasses)
include hs fate step fair

theorem turns_of_outstanding (same : p.Continues q)
    (entry : u.trace p.key = { outstanding := [q] }) (secret : u.unannounced p.key = []) :
    Turns p steps u v [] := by
  obtain ⟨task, rest, ha, e⟩ := hs.upkeep.exists_effect fair step
  have becomes := e.becomes ha hs.accounted fate
  have secret' := secret_of_step step ha
    (fate.announces?_eq_none ha (by simp [entry])) secret
  obtain ⟨mem, own⟩ := mem_of_trace (congrArg Trace.outstanding entry)
  refine .inl ⟨?_, not_announce_of_secret secret⟩
  rw [entry] at becomes
  generalize hv : v.trace p.key = after at becomes
  cases becomes with
  | stay => exact .outstanding same hv secret'
  | goOn more => exact .outstanding (same.trans more) hv secret'
  | @leave _ ending ends =>
    refine .finishing ⟨same, u, by simp, v, .work step fair, step, ⟨task, rest, ha, ends⟩, ?_, ?_⟩
      hv secret'
    · exact findExact?_of_mem hs.accounted mem
    · rw [findExact?_eq, own, hv]
      rfl
  | lose => exact .lost hv secret'

theorem turns_of_lost (known : p.key.serial < u.ledger.nextSerial)
    (nothing : u.trace p.key = {}) (secret : u.unannounced p.key = []) : Turns p steps u v [] := by
  obtain ⟨task, rest, ha, -⟩ := hs.upkeep.exists_effect fair step
  have none := fate.announces?_eq_none ha (by simp [nothing])
  exact .inl ⟨.lost ((Next.work step fair).nothing hs known nothing)
    (secret_of_step step ha none secret), not_announce_of_secret secret⟩

theorem turns_of_finishing (known : p.key.serial < u.ledger.nextSerial)
    (ended : EndedIn steps p q ending) (owed : u.trace p.key = { owed := [.finish q ending] })
    (secret : u.unannounced p.key = []) : Turns p steps u v [] := by
  obtain ⟨task, rest, ha, e⟩ := hs.upkeep.exists_effect fair step
  have becomes := e.becomes ha hs.accounted fate
  have own : q.key = p.key := ended.1.key
  refine .inl ⟨?_, not_announce_of_secret secret⟩
  by_cases first : task = .finish q ending
  · -- The callback is to be invoked next, and behind it the end announced.
    subst first
    have called := trace_of_finish hs (own ▸ fate) (own ▸ known) ha step fair
    have secret' := unannounced_of_step step ha p.key
    rw [unannounced_pop ha] at secret
    rw [(List.append_eq_nil_iff.1 secret).2, Task.announces?, if_pos own] at secret'
    have ahead : u.agenda = [] ++ .finish q ending :: rest := ha
    have clear := (fate.not_mem_back ahead (congrArg some own)).2
    have agenda := finish_agenda { u with agenda := rest } q ending
    rw [step_of_agenda ha, Option.some.injEq] at step
    subst step
    rw [own] at called agenda
    exact .calling (ended.concat u) (called ▸ .owed .complete) (by simp [called]) agenda secret'
      clear
  · have none := fate.announces?_eq_none ha fun r ending' _ owes => by
      rw [owed] at owes
      exact first (List.singleton_inj.1 (congrArg Trace.owed owes)).symm
    have secret' := secret_of_step step ha none secret
    rw [owed] at becomes
    generalize hv : v.trace p.key = after at becomes
    cases becomes with
    | stay => exact .finishing (ended.concat u) hv secret'
    | finish named => exact (first named).elim

theorem turns_of_calling {front back : List Task} (known : p.key.serial < u.ledger.nextSerial)
    (ended : EndedIn steps p q ending) (settled : (u.trace p.key).Settled q ending)
    (begun : ∀ r ending, .finish r ending ∉ (u.trace p.key).owed)
    (agenda : u.agenda = front ++ .announce p.key (.finished q.kind ending.outcome) :: back)
    (secret : u.unannounced p.key = [.finished q.kind ending.outcome])
    (clear : ∀ x ∈ back, x.owed? ≠ some p.key) : Turns p steps u v [] := by
  obtain ⟨task, rest, ha, e⟩ := hs.upkeep.exists_effect fair step
  have becomes := e.becomes ha hs.accounted fate
  have own : q.key = p.key := ended.1.key
  have none := fate.announces?_eq_none ha fun r ending' named owes => begun r ending' (by
    simp [owes, named])
  have secret' := unannounced_of_step step ha p.key
  rw [none] at secret'
  rw [unannounced_pop ha] at secret
  cases front with
  | nil =>
    -- The end is announced; as nothing behind owes the callback, it has been invoked.
    obtain ⟨rfl, rfl⟩ := List.cons.inj (ha.symm.trans agenda)
    obtain ⟨event, reports, paid⟩ := paid_of_clear settled fun x mem owes => by
      rw [ha] at mem
      rcases List.mem_cons.1 mem with rfl | mem
      · cases owes
      · exact clear x mem owes
    rw [Task.announced?, if_pos rfl] at secret
    refine .inr ⟨_, _, rfl, rfl, ha, ?_⟩
    rw [paid] at becomes
    generalize hv : v.trace p.key = after at becomes
    cases becomes with
    | stay =>
      exact .announced (ended.concat u) hv reports (secret'.trans (List.cons.inj secret).2)
  | cons x front =>
    obtain ⟨rfl, rfl⟩ := List.cons.inj (ha.symm.trans agenda)
    have ahead : (front ++ .announce p.key (.finished q.kind ending.outcome) :: back).filterMap
        (Task.announced? p.key) ≠ [] := by
      rw [List.filterMap_append, List.filterMap_cons_some (b := .finished q.kind ending.outcome)]
      · simp
      · rw [Task.announced?, if_pos rfl]
    cases hx : task.announced? p.key with
    | some moment =>
      rw [hx] at secret
      exact (ahead (List.cons.inj secret).2).elim
    | none =>
      rw [hx] at secret
      obtain ⟨new, agenda'⟩ := e.suffix
      have agenda' : v.agenda =
          (new ++ front) ++ .announce p.key (.finished q.kind ending.outcome) :: back := by
        rw [← agenda', List.append_assoc]
        rfl
      refine .inl ⟨?_, ?_⟩
      · refine .calling (ended.concat u) ?_ (not_finish_of_becomes becomes settled begun) agenda'
          (secret'.trans secret) clear
        rw [← own] at settled known ⊢
        exact (Next.work step fair).settled hs known settled
      · intro moment rest' ha'
        obtain ⟨rfl, -⟩ := List.cons.inj (ha.symm.trans ha')
        rw [Task.announced?, if_pos rfl] at hx
        cases hx

theorem turns_of_announced {event : Event} (ended : EndedIn steps p q ending)
    (paid : u.trace p.key = { paid := [event] }) (reports : event.Reports q ending)
    (secret : u.unannounced p.key = []) :
    Turns p steps u v [.finished q.kind ending.outcome] := by
  obtain ⟨task, rest, ha, e⟩ := hs.upkeep.exists_effect fair step
  have becomes := e.becomes ha hs.accounted fate
  have none := fate.announces?_eq_none ha (by simp [paid])
  refine .inl ⟨?_, not_announce_of_secret secret⟩
  rw [paid] at becomes
  generalize hv : v.trace p.key = after at becomes
  cases becomes with
  | stay => exact .announced (ended.concat u) hv reports (secret_of_step step ha none secret)

theorem Phase.turns (known : p.key.serial < u.ledger.nextSerial)
    (h : Phase p steps u moments) : Turns p steps u v moments := by
  cases h with
  | outstanding same entry secret =>
    exact turns_of_outstanding hs fate step fair same entry secret
  | lost nothing secret => exact turns_of_lost hs fate step fair known nothing secret
  | finishing ended owed secret =>
    exact turns_of_finishing hs fate step fair known ended owed secret
  | calling ended settled begun agenda secret clear =>
    exact turns_of_calling hs fate step fair known ended settled begun agenda secret clear
  | announced ended paid reports secret =>
    exact turns_of_announced hs fate step fair ended paid reports secret

end step

/-! ## What an observer has been told so far -/

/-- What is so of an observer that was there when a request was registered, later in a run. -/
structure Account (i : Nat) (listener : Option String) (p : Pending) (steps : List State)
    (u : State) (moments : List Moment) : Prop where
  phase : Phase p steps u moments
  watched : u.managerAlive → u.listener? i = some listener
  created : (tale i p.key steps u).filter Moment.begins = [.created p.kind]
  finished : (tale i p.key steps u).filter Moment.ends = moments
  stack : (u.untold i p.key).Pairwise fun a b => b.rank ≤ a.rank
  order : (∀ x ∈ steps ++ [u], ¬ x.Overtaken i p.key) →
    (tale i p.key steps u).Pairwise fun a b => a.rank ≤ b.rank

theorem told_concat (x : State) :
    told i key (steps ++ [x]) = told i key steps ++ (x.hears? i key).toList := by
  rw [told, List.filterMap_append]
  cases h : x.hears? i key with
  | none => simp [told, h]
  | some moment => simp [told, h]

/-- What an observer is told moves from what it is still to be told to what it has been told. -/
theorem tale_of_told (now : u.hears? i key = some moment)
    (untold : u.untold i key = moment :: v.untold i key) :
    tale i key (steps ++ [u]) v = tale i key steps u := by
  rw [tale, tale, told_concat, now, untold, List.append_assoc]
  rfl

theorem tale_of_silent (silent : u.hears? i key = none)
    (untold : v.untold i key = moments ++ u.untold i key) :
    tale i key (steps ++ [u]) v = told i key steps ++ (moments ++ u.untold i key) := by
  rw [tale, told_concat, silent, untold]
  simp

/-- A step that brings nothing new leaves the account as it is. -/
theorem Account.step (h : Account i listener p steps u moments)
    (phase : Phase p (steps ++ [u]) v moments)
    (watched : v.managerAlive → v.listener? i = some listener)
    (tale : tale i p.key (steps ++ [u]) v = State.tale i p.key steps u)
    (suffix : v.untold i p.key <:+ u.untold i p.key) :
    Account i listener p (steps ++ [u]) v moments where
  phase := phase
  watched := watched
  created := tale ▸ h.created
  finished := tale ▸ h.finished
  stack := h.stack.sublist suffix.sublist
  order := fun clear => tale ▸ h.order fun x hx => clear x (List.mem_append_left _ hx)

/-- A round puts a moment before those that the observer is still to be told of.  As the request
has not ended before, none of these is its end. -/
theorem Account.round {later : List Moment} (h : Account i listener p steps u [])
    (phase : Phase p (steps ++ [u]) v later)
    (watched : v.managerAlive → v.listener? i = some listener) (new : moment.begins = false)
    (ends : [moment].filter Moment.ends = later) (silent : u.hears? i p.key = none)
    (untold : v.untold i p.key = moment :: u.untold i p.key) :
    Account i listener p (steps ++ [u]) v later := by
  have pushed : v.untold i p.key = [moment] ++ u.untold i p.key := untold
  have tale : tale i p.key (steps ++ [u]) v =
      told i p.key steps ++ (moment :: u.untold i p.key) := tale_of_silent silent pushed
  have before : ∀ a ∈ State.tale i p.key steps u, a.rank ≤ moment.rank := by
    intro a ha
    have open' : a.ends = false := by simpa using List.filter_eq_nil_iff.1 h.finished a ha
    exact Nat.le_trans (Moment.rank_le_of_not_ends open') (Moment.rank_pos new)
  refine ⟨phase, watched, ?_, ?_, ?_, ?_⟩
  · have created := h.created
    rw [State.tale, List.filter_append] at created
    rw [tale, List.filter_append, List.filter_cons_of_neg (by simp [new]), created]
  · have finished := h.finished
    rw [State.tale, List.filter_append, List.append_eq_nil_iff] at finished
    rw [tale, List.filter_append, finished.1, List.nil_append, ← List.singleton_append,
      List.filter_append, finished.2, List.append_nil, ends]
  · rw [untold, List.pairwise_cons]
    exact ⟨fun b hb => before b (List.mem_append_right _ hb), h.stack⟩
  · intro clear
    have now : ¬ v.Overtaken i p.key := clear v (by simp)
    have order := h.order fun x hx => clear x (List.mem_append_left _ hx)
    -- The moment has overtaken neither the creation nor the end.
    have after : ∀ b ∈ u.untold i p.key, moment.rank ≤ b.rank := by
      intro b hb
      have only : ∀ m ∈ v.untold i p.key, m.between = false → v.untold i p.key = [m] := by
        intro m hm apart
        exact Classical.not_not.1 fun ne => now ⟨m, hm, apart, ne⟩
      rw [untold] at only
      cases hm : moment.between with
      | false =>
        have alone := (List.cons.inj (only moment List.mem_cons_self hm)).2
        rw [alone] at hb
        cases hb
      | true =>
        cases hbetween : b.between with
        | false =>
          have alone := (List.cons.inj (only b (List.mem_cons_of_mem _ hb) hbetween)).2
          rw [alone] at hb
          cases hb
        | true =>
          exact Nat.le_of_eq
            ((Moment.rank_of_between hm).trans (Moment.rank_of_between hbetween).symm)
    rw [State.tale, List.pairwise_append] at order
    rw [tale, List.pairwise_append, List.pairwise_cons]
    refine ⟨order.1, ⟨after, order.2.1⟩, ?_⟩
    intro a ha b hb
    rcases List.mem_cons.1 hb with rfl | hb
    · exact before a (List.mem_append_left _ ha)
    · exact order.2.2 a ha b hb

theorem Account.work (h : Account i listener p steps u moments) (hs : u.Sane)
    (sheltered : Sheltered u.agenda) (fate : u.Fate p.key)
    (known : p.key.serial < u.ledger.nextSerial) (step : u.step = some v)
    (fair : ¬ u.Trespasses) : ∃ later, Account i listener p (steps ++ [u]) v later := by
  have next : Next u v := .work step fair
  have watched : v.managerAlive → v.listener? i = some listener := fun alive =>
    next.listener? alive (h.watched (next.alive_of_alive hs.upkeep alive))
  rcases h.phase.turns hs fate step fair known with
    ⟨phase, other⟩ | ⟨moment, rest, rfl, ends, first, phase⟩
  · refine ⟨moments, ?_⟩
    cases hearing_of_step step i p.key other with
    | told now untold =>
      exact h.step phase watched (tale_of_told now untold) ⟨[_], untold.symm⟩
    | still silent untold =>
      have same : v.untold i p.key = [] ++ u.untold i p.key := untold
      exact h.step phase watched (tale_of_silent silent same) (untold ▸ List.suffix_rfl)
    | enters _ own serial =>
      rw [← own] at known
      exact (Nat.lt_irrefl _ (serial ▸ known)).elim
    | @between q moment silent mem own between _ untold =>
      obtain rfl := h.phase.of_outstanding mem own
      obtain ⟨new, open'⟩ := Moment.begins_of_between between
      exact h.round phase watched new (by simp [open']) silent untold
  · -- The observers are there, for a task that announces something is ahead.
    have alive := hs.alive_of_exposed sheltered (first ▸ List.mem_cons_self) rfl
    obtain ⟨silent, untold⟩ := untold_of_announce step first i
    rw [if_pos (lt_of_listener? (h.watched alive))] at untold
    exact ⟨[moment], h.round phase watched (Moment.begins_of_ends ends) (by simp [ends]) silent
      untold⟩

/-- What somebody's call leaves as it is. -/
theorem Account.call (h : Account i listener p steps u moments) (call : Call) (self : RequestId) :
    Account i listener p steps (u.push [.issue call self]) moments := by
  have trace : (u.push [.issue call self]).trace p.key = u.trace p.key :=
    trace_push_quiet u (by simp [Task.owed?])
  have secret : (u.push [.issue call self]).unannounced p.key = u.unannounced p.key := rfl
  have pushed : Change u (.issue call self) u (u.push [.issue call self]) := .again u call self
  refine ⟨?_, ?_, h.created, h.finished, h.stack, ?_⟩
  · cases h.phase with
    | outstanding same entry unannounced =>
      exact .outstanding same (trace.trans entry) unannounced
    | lost nothing unannounced => exact .lost (trace.trans nothing) unannounced
    | finishing ended owed unannounced =>
      exact .finishing ended (trace.trans owed) unannounced
    | @calling q ending front back ended settled begun agenda unannounced clear =>
      rw [← trace] at settled begun
      have agenda : (u.push [.issue call self]).agenda = (.issue call self :: front) ++
          .announce p.key (.finished q.kind ending.outcome) :: back :=
        congrArg (Task.issue call self :: ·) agenda
      exact .calling ended settled begun agenda unannounced clear
    | announced ended paid reports unannounced =>
      exact .announced ended (trace.trans paid) reports unannounced
  · intro alive
    rw [pushed.stays.1] at alive
    exact h.watched alive
  · intro clear
    refine h.order fun x hx => ?_
    rcases List.mem_append.1 hx with hx | hx
    · exact clear x (List.mem_append_left _ hx)
    · rw [List.mem_singleton.1 hx]
      exact clear (u.push [.issue call self]) (by simp)

theorem Account.rewind (h : Account i listener p steps u moments) (n : UInt32) :
    Account i listener p steps { u with pool := u.pool.rewind n } moments := by
  refine ⟨?_, h.watched, h.created, h.finished, h.stack, ?_⟩
  · cases h.phase with
    | outstanding same entry secret => exact .outstanding same entry secret
    | lost nothing secret => exact .lost nothing secret
    | finishing ended owed secret => exact .finishing ended owed secret
    | calling ended settled begun agenda secret clear =>
      exact .calling ended settled begun agenda secret clear
    | announced ended paid reports secret => exact .announced ended paid reports secret
  · intro clear
    refine h.order fun x hx => ?_
    rcases List.mem_append.1 hx with hx | hx
    · exact clear x (List.mem_append_left _ hx)
    · rw [List.mem_singleton.1 hx]
      exact clear { u with pool := u.pool.rewind n } (by simp)

/-- An observer that is there when a request is registered is to be told of its creation before
anything else happens. -/
theorem Bears.account (bears : v.Bears w task p) (hv : v.Sane) (informed : v.Informed)
    (watches : v.listener? i = some listener) : Account i listener p [] w [] := by
  obtain ⟨rest, ha, enters⟩ := bears.enters hv
  obtain ⟨task', rest', ha', tidings⟩ := exists_tidings bears.step
  obtain ⟨rfl, rfl⟩ := List.cons.inj (ha.symm.trans ha')
  obtain ⟨call, self, back, rfl, mutes, round⟩ := tidings.round enters
  have new : ¬ p.key.serial < v.ledger.nextSerial :=
    Nat.not_lt_of_ge (Nat.le_of_eq (bears.serial hv).1.symm)
  have quiet : (back ++ [Task.grant call p.key]).filterMap (Task.told? i p.key) = [] := by
    rw [List.filterMap_append, filterMap_told?_of_mute mutes]
    rfl
  have untold : w.untold i p.key = [.created p.kind] := by
    rw [round.untold ha rfl quiet, if_pos ⟨rfl, lt_of_listener? watches⟩, informed.untold new]
    rfl
  have tale : tale i p.key [] w = [.created p.kind] := untold
  refine ⟨.outstanding (.refl p) bears.after ?_, ?_, ?_, ?_, ?_, ?_⟩
  · exact secret_of_step bears.step ha rfl (informed.unannounced new)
  · exact fun alive => bears.next.listener? alive watches
  · rw [tale]
    rfl
  · rw [tale]
    rfl
  · rw [untold]
    exact List.pairwise_singleton _ _
  · intro _
    rw [tale]
    exact List.pairwise_singleton _ _

theorem Course.account (start : Start s₀) (reached : Reaches s₀ v) (bears : v.Bears w task p)
    (watches : v.listener? i = some listener) (course : Course w steps u) :
    ∃ moments, Account i listener p steps u moments := by
  have sane := reached.sane start.sane
  have toW : Reaches s₀ w := reached.tail bears.next
  have known := bears.known sane
  induction course with
  | start => exact ⟨[], bears.account sane (reached.informed start) watches⟩
  | @work steps x y course step fair ih =>
    obtain ⟨moments, account⟩ := ih
    have toX := toW.trans course.reaches
    exact account.work (toX.sane start.sane) (toX.sheltered start)
      (toX.fate start.sane (start.fate p.key))
      (Nat.lt_of_lt_of_le known (course.reaches.nextSerial_le (toW.sane start.sane))) step fair
  | call _ call self ih =>
    obtain ⟨moments, account⟩ := ih
    exact ⟨moments, account.call call self⟩
  | rewind _ n ih =>
    obtain ⟨moments, account⟩ := ih
    exact ⟨moments, account.rewind n⟩

/-- The end that an observer is told of, or is still to be told of, is one that a step brought. -/
theorem Account.exists_ended (h : Account i listener p steps u moments) :
    (tale i p.key steps u).filter Moment.ends = [] ∨ ∃ q ending, EndedIn steps p q ending ∧
      (tale i p.key steps u).filter Moment.ends = [.finished q.kind ending.outcome] := by
  rw [h.finished]
  cases h.phase with
  | announced ended => exact .inr ⟨_, _, ended, rfl⟩
  | _ => exact .inl rfl

/-- By the time that an observer is to be told of the end, the callback has been invoked. -/
theorem Account.announced (h : Account i listener p steps u moments)
    (ahead : moment ∈ u.untold i p.key) (ends : moment.ends) : ∃ q ending event,
      EndedIn steps p q ending ∧ moment = .finished q.kind ending.outcome ∧
      event.Reports q ending ∧ u.trace p.key = { paid := [event] } := by
  have mem : moment ∈ (tale i p.key steps u).filter Moment.ends :=
    List.mem_filter.2 ⟨List.mem_append_right _ ahead, ends⟩
  rw [h.finished] at mem
  cases h.phase with
  | announced ended paid reports =>
    exact ⟨_, _, _, ended, List.mem_singleton.1 mem, reports, paid⟩
  | _ => cases mem

/-! ## The order -/

/-- In a step an observer is told what comes next, or has more put before what it is to be
told. -/
theorem tale_of_step (step : u.step = some v) (i : Nat) (key : RequestKey) :
    tale i key (steps ++ [u]) v = tale i key steps u ∨
      ∃ moments, tale i key (steps ++ [u]) v = told i key steps ++ (moments ++ u.untold i key) := by
  rcases untold_of_step step i key with ⟨moment, now, untold⟩ | ⟨silent, moments, untold⟩
  · exact .inl (tale_of_told now untold)
  · exact .inr ⟨moments, tale_of_silent silent untold⟩

/-- What an observer is to be told at some time of a course it is told in that order, if not
without interruption. -/
theorem Course.untold_sublist (course : Course s steps u) (i : Nat) (key : RequestKey) :
    (s.untold i key).Sublist (tale i key steps u) := by
  induction course with
  | start => exact List.Sublist.refl _
  | @work steps t v course step fair ih =>
    refine ih.trans ?_
    rcases tale_of_step step i key with same | ⟨moments, more⟩
    · rw [same]
    · rw [more, tale]
      exact (List.sublist_append_right moments _).append_left _
  | call _ _ _ ih => exact ih
  | rewind _ _ ih => exact ih

/-- Moments in both orders are all of one rank.  So if the creation, or the end, is among them,
there is nothing else. -/
theorem Moment.eq_singleton_of_rank {l : List Moment} {moment : Moment}
    (up : l.Pairwise fun a b => a.rank ≤ b.rank) (down : l.Pairwise fun a b => b.rank ≤ a.rank)
    (mem : moment ∈ l) (apart : moment.between = false)
    (one : (l.filter Moment.begins).length ≤ 1) (last : (l.filter Moment.ends).length ≤ 1) :
    l = [moment] := by
  have le : ∀ a ∈ l, ∀ b ∈ l, a.rank ≤ b.rank := fun a ha b hb =>
    List.Pairwise.forall_of_forall_of_flip (R := fun a b => a.rank ≤ b.rank)
      (fun a _ => Nat.le_refl a.rank) up down ha hb
  have level : ∀ a ∈ l, a.rank = moment.rank := fun a ha =>
    Nat.le_antisymm (le a ha moment mem) (le moment mem a ha)
  have short : l.length ≤ 1 := by
    cases moment with
    | created kind =>
      have all : l.filter Moment.begins = l := by
        rw [List.filter_eq_self]
        intro a ha
        have rank := level a ha
        cases a <;> simp_all [Moment.rank, Moment.begins]
      rwa [all] at one
    | finished kind outcome =>
      have all : l.filter Moment.ends = l := by
        rw [List.filter_eq_self]
        intro a ha
        have rank := level a ha
        cases a <;> simp_all [Moment.rank, Moment.ends]
      rwa [all] at last
    | delivered | progress => cases apart
  match l, mem, short with
  | [a], mem, _ => rw [List.mem_singleton.1 mem]

/-- Where an observer is told of a request in order, neither its creation nor its end was
overtaken. -/
theorem Account.not_overtaken {moments told : List Moment}
    (h : Account i listener p steps u moments) (sublist : (u.untold i p.key).Sublist told)
    (one : (told.filter Moment.begins).length ≤ 1) (last : (told.filter Moment.ends).length ≤ 1)
    (order : told.Pairwise fun a b => a.rank ≤ b.rank) : ¬ u.Overtaken i p.key := by
  rintro ⟨moment, mem, apart, ne⟩
  refine ne (Moment.eq_singleton_of_rank (order.sublist sublist) h.stack mem apart ?_ ?_)
  · exact Nat.le_trans (sublist.filter _).length_le one
  · exact Nat.le_trans (sublist.filter _).length_le last

theorem Course.not_overtaken (start : Start s₀) (reached : Reaches s₀ v)
    (bears : v.Bears w task p) (watches : v.listener? i = some listener) (course : Course w steps u)
    (order : (tale i p.key steps u).Pairwise fun a b => a.rank ≤ b.rank) :
    ∀ x ∈ steps ++ [u], ¬ x.Overtaken i p.key := by
  obtain ⟨moments, here⟩ := course.account start reached bears watches
  have one : ((tale i p.key steps u).filter Moment.begins).length ≤ 1 := by
    rw [here.created]
    exact Nat.le_refl 1
  have last : ((tale i p.key steps u).filter Moment.ends).length ≤ 1 := by
    rw [here.finished]
    exact here.phase.length_le
  intro x mem
  rcases List.mem_append.1 mem with mem | mem
  · obtain ⟨before, after, rfl⟩ := List.append_of_mem mem
    obtain ⟨y, toX, step, fair, fromX⟩ := course.split
    obtain ⟨moments, there⟩ := toX.account start reached bears watches
    have rest : Course x (x :: after) u := (Course.work .start step fair).trans fromX
    refine there.not_overtaken ?_ one last order
    refine (rest.untold_sublist i p.key).trans ?_
    rw [tale, tale, told, told, List.filterMap_append, List.append_assoc]
    exact List.sublist_append_right _ _
  · rw [List.mem_singleton.1 mem]
    exact here.not_overtaken (List.sublist_append_right _ _) one last order

/-! ## What overtaking takes -/

/-- An observer is to be told of one moment of a request at most, and before it there are only
tasks for which a round can wait. -/
structure Smooth (i : Nat) (key : RequestKey) (s : State) : Prop where
  alone : (s.untold i key).length ≤ 1
  ahead : ∀ front moment back, s.agenda = front ++ .tell i key moment :: back →
    ∀ x ∈ front, x.ofRound

/-- In a course somebody has made a call in the middle of a round: an observer was still to be told
of a moment of a request, and of nothing else of it, and has not been told of that since. -/
def Interrupted (i : Nat) (key : RequestKey) (steps : List State) (u : State) : Prop :=
  ∃ moment before y between call self rest, steps = before ++ y :: between ∧
    y.agenda = .issue call self :: rest ∧ y.untold i key = [moment] ∧
    ∀ z ∈ between ++ [u], [moment] <:+ z.untold i key

theorem not_tell_mem {tasks : List Task} (quiet : tasks.filterMap (Task.told? i key) = [])
    (moment : Moment) : .tell i key moment ∉ tasks := by
  intro mem
  have told := List.filterMap_eq_nil_iff.1 quiet _ mem
  rw [Task.told?, if_pos ⟨rfl, rfl⟩] at told
  cases told

theorem Smooth.of_untold (nothing : s.untold i key = []) : s.Smooth i key where
  alone := by simp [nothing]
  ahead := by
    intro front moment back agenda
    exact (not_tell_mem nothing moment (agenda ▸ List.mem_append_right _ List.mem_cons_self)).elim

/-- As long as an observer is to be told of nothing, a step begins one round at most. -/
theorem smooth_of_untold_nil (step : s.step = some t) (nothing : s.untold i key = []) :
    t.Smooth i key := by
  obtain ⟨task, rest, ha, -⟩ := exists_tidings step
  obtain ⟨news, back, agenda, round, quiet, -⟩ := exists_round_of_step step ha
  have behind : (back ++ rest).filterMap (Task.told? i key) = [] := by
    rw [untold_pop ha] at nothing
    rw [List.filterMap_append, quiet i key, (List.append_eq_nil_iff.1 nothing).2]
    rfl
  constructor
  case alone =>
    rw [untold, agenda, List.filterMap_append, behind, List.append_nil]
    rcases round with rfl | ⟨request, moment, rfl⟩
    · exact Nat.zero_le _
    · rw [filterMap_told?_tells]
      split <;> simp
  case ahead =>
    intro front moment back' cut x hx
    rw [agenda] at cut
    rcases List.append_eq_append_iff.1 cut with ⟨more, -, later⟩ | ⟨more, same, -⟩
    · have mem : .tell i key moment ∈ back ++ rest := by simp [later]
      exact (not_tell_mem behind moment mem).elim
    · have mem : x ∈ news := same ▸ List.mem_append_left _ hx
      rcases round with rfl | ⟨request, moment, rfl⟩
      · cases mem
      · obtain ⟨j, -, rfl⟩ := List.mem_map.1 mem
        rfl

/-- A task for which a round can wait sets only such tasks, unless it is a call. -/
theorem agenda_of_ofRound (step : s.step = some t) (ha : s.agenda = task :: rest)
    (ofRound : task.ofRound) (uncalled : ∀ call self, task ≠ .issue call self) :
    ∃ tasks, t.agenda = tasks ++ rest ∧ ∀ x ∈ tasks, x.mute ∧ x.ofRound := by
  rw [step_of_agenda ha, Option.some.injEq] at step
  subst step
  cases task with
  | issue call self => exact (uncalled call self rfl).elim
  | tell observer request moment => exact tell_agenda { s with agenda := rest } observer request _
  | cancelVerdict request => exact ⟨[], cancelVerdict_agenda _ request, by simp⟩
  | _ => cases ofRound

/-- What it takes to disturb a round: a call while the observer is still to be told. -/
theorem Smooth.step (h : s.Smooth i key) (step : s.step = some t)
    (uncalled : s.untold i key ≠ [] → ∀ call self rest, s.agenda ≠ .issue call self :: rest) :
    t.Smooth i key := by
  by_cases nothing : s.untold i key = []
  · exact smooth_of_untold_nil step nothing
  obtain ⟨moment, mem⟩ := List.exists_mem_of_ne_nil _ nothing
  obtain ⟨x, mem, told⟩ := List.mem_filterMap.1 mem
  obtain rfl := told?_eq_some.1 told
  obtain ⟨front, back, agenda⟩ := List.append_of_mem mem
  obtain ⟨task, rest, ha, -⟩ := exists_tidings step
  -- The next task is the one that tells of the moment, or it comes before that.
  have ofRound : task.ofRound := by
    rw [ha] at agenda
    cases front with
    | nil =>
      obtain ⟨rfl, -⟩ := List.cons.inj agenda
      rfl
    | cons x front =>
      obtain ⟨rfl, -⟩ := List.cons.inj agenda
      exact h.ahead _ _ _ (ha.trans agenda) _ List.mem_cons_self
  obtain ⟨tasks, pushed, ofRounds⟩ := agenda_of_ofRound step ha ofRound fun call self named =>
    uncalled nothing call self rest (named ▸ ha)
  constructor
  case alone =>
    have alone := h.alone
    rw [untold_pop ha, List.length_append] at alone
    rw [untold, pushed, List.filterMap_append,
      filterMap_told?_of_mute fun x hx => (ofRounds x hx).1]
    exact Nat.le_trans (Nat.le_add_left _ _) alone
  case ahead =>
    intro front moment back cut x hx
    rw [pushed] at cut
    rcases List.append_eq_append_iff.1 cut with ⟨more, rfl, later⟩ | ⟨more, same, -⟩
    · rcases List.mem_append.1 hx with hx | hx
      · exact (ofRounds x hx).2
      · have agenda := ha.trans (congrArg (task :: ·) later)
        exact h.ahead (task :: more) moment back agenda x (List.mem_cons_of_mem _ hx)
    · exact (ofRounds x (same ▸ List.mem_append_left _ hx)).2

/-- The last of the moments that an observer is to be told of stays the last until it is told. -/
theorem last_untold_of_step (step : s.step = some t) (last : [moment] <:+ s.untold i key) :
    t.untold i key = [] ∨ [moment] <:+ t.untold i key := by
  rcases untold_of_step step i key with ⟨next, -, told⟩ | ⟨-, moments, more⟩
  · rw [told] at last
    rcases List.suffix_cons_iff.1 last with only | last
    · exact .inl (List.cons.inj only).2.symm
    · exact .inr last
  · rw [more]
    exact .inr (last.trans (List.suffix_append _ _))

/-- A course stays interrupted for as long as the moment waits. -/
theorem Interrupted.waits (h : Interrupted i key steps u) :
    ∃ moment, [moment] <:+ u.untold i key ∧ ∀ more v,
      (∀ z ∈ more ++ [v], [moment] <:+ z.untold i key) → Interrupted i key (steps ++ more) v := by
  obtain ⟨moment, before, y, between, call, self, rest, rfl, ahead, alone, waits⟩ := h
  refine ⟨moment, waits u (by simp), fun more v later => ?_⟩
  refine ⟨moment, before, y, between ++ more, call, self, rest, by simp, ahead, alone, ?_⟩
  intro z hz
  rw [List.append_assoc] at hz
  rcases List.mem_append.1 hz with hz | hz
  · exact waits z (List.mem_append_left _ hz)
  · exact later z hz

theorem Interrupted.step (h : Interrupted i key steps u) (step : u.step = some v) :
    v.untold i key = [] ∨ Interrupted i key (steps ++ [u]) v := by
  obtain ⟨moment, last, waits⟩ := h.waits
  refine (last_untold_of_step step last).imp_right fun last' => waits [u] v ?_
  simp [last, last']

theorem Interrupted.congr (h : Interrupted i key steps u) (same : v.untold i key = u.untold i key) :
    Interrupted i key steps v := by
  obtain ⟨moment, last, waits⟩ := h.waits
  simpa [same, last] using waits [] v

/-- What an observer is to be told of a request in a course comes smoothly, or somebody has made a
call in the middle of a round. -/
theorem Course.smooth_or_interrupted (course : Course s steps u)
    (nothing : s.untold i key = []) : u.Smooth i key ∨ Interrupted i key steps u := by
  induction course with
  | start => exact .inl (.of_untold nothing)
  | @work steps t u course step fair ih =>
    rcases ih with smooth | interrupted
    · by_cases called : t.untold i key ≠ [] ∧ ∃ call self rest, t.agenda = .issue call self :: rest
      · obtain ⟨waits, call, self, rest, ahead⟩ := called
        obtain ⟨moment, alone⟩ : ∃ moment, t.untold i key = [moment] :=
          List.length_eq_one_iff.1
            (Nat.le_antisymm smooth.alone (List.length_pos_of_ne_nil waits))
        have last : [moment] <:+ t.untold i key := alone ▸ List.suffix_refl [moment]
        rcases last_untold_of_step step last with none | last
        · exact .inl (.of_untold none)
        · refine .inr ⟨moment, steps, t, [], call, self, rest, rfl, ahead, alone, ?_⟩
          intro z hz
          rwa [List.mem_singleton.1 hz]
      · refine .inl (smooth.step step fun waits call self rest ahead => ?_)
        exact called ⟨waits, call, self, rest, ahead⟩
    · exact (interrupted.step step).imp .of_untold id
  | @call steps t course call self ih =>
    refine ih.imp (fun smooth => ?_) (·.congr rfl)
    refine ⟨smooth.alone, fun front moment back agenda x hx => ?_⟩
    cases front with
    | nil => cases hx
    | cons first front =>
      obtain ⟨rfl, later⟩ := List.cons.inj agenda
      rcases List.mem_cons.1 hx with rfl | hx
      · rfl
      · exact smooth.ahead front moment back later x hx
  | rewind course n ih =>
    exact ih.imp (fun smooth => ⟨smooth.alone, smooth.ahead⟩) (·.congr rfl)

/-- What overtakes the creation of a request, or its end, comes of a call that was made in the
middle of a round. -/
theorem Course.interrupted_of_overtaken (course : Course s steps u)
    (nothing : s.untold i key = []) (overtaken : u.Overtaken i key) :
    Interrupted i key steps u := by
  rcases course.smooth_or_interrupted nothing with smooth | interrupted
  · obtain ⟨moment, mem, -, ne⟩ := overtaken
    obtain ⟨only, alone⟩ := List.length_eq_one_iff.1
      (Nat.le_antisymm smooth.alone (List.length_pos_of_mem mem))
    rw [alone, List.mem_singleton] at mem
    exact (ne (mem ▸ alone)).elim
  · exact interrupted

theorem Course.interrupted_of_bears (start : Start s₀) (reached : Reaches s₀ v)
    (bears : v.Bears w task p) (course : Course w steps u) (overtaken : u.Overtaken i p.key) :
    Interrupted i p.key steps u := by
  have sane := reached.sane start.sane
  have new : ¬ p.key.serial < v.ledger.nextSerial :=
    Nat.not_lt_of_ge (Nat.le_of_eq (bears.serial sane).1.symm)
  have nothing : v.untold i p.key = [] := (reached.informed start).untold new i
  have fromV : Course v (v :: steps) u := (Course.work .start bears.step bears.fair).trans course
  obtain ⟨moment, before, y, between, call, self, rest, cut, ahead, alone, waits⟩ :=
    fromV.interrupted_of_overtaken nothing overtaken
  -- The observer was to be told nothing of the request when it was registered.
  cases before with
  | nil =>
    obtain ⟨rfl, -⟩ := List.cons.inj cut
    rw [nothing] at alone
    cases alone
  | cons first before =>
    exact ⟨moment, before, y, between, call, self, rest, (List.cons.inj cut).2, ahead, alone, waits⟩

/-! ## The life of a request, as an observer is told it -/

theorem hears?_eq_some : s.hears? i key = some moment ↔
    ∃ rest, s.agenda = .tell i key moment :: rest := by
  constructor
  · intro h
    obtain ⟨task, first, told⟩ := Option.bind_eq_some_iff.1 h
    obtain ⟨rest, ha⟩ := List.head?_eq_some_iff.1 first
    exact ⟨rest, told?_eq_some.1 told ▸ ha⟩
  · rintro ⟨rest, ha⟩
    rw [hears?_eq ha, told?_eq_some]

theorem mem_untold_of_hears (hears : s.hears? i key = some moment) : moment ∈ s.untold i key := by
  obtain ⟨rest, ha⟩ := hears?_eq_some.1 hears
  rw [untold_pop ha, Task.told?, if_pos ⟨rfl, rfl⟩]
  exact List.mem_cons_self

/-- A client's observer that is told of a moment is called. -/
theorem tell_watcher {name : String} {hooks : Hooks Call}
    (there : s.observers[i]? = some (.watcher name hooks)) :
    (s.tell i key moment).history = .observed name key moment :: s.history := by
  simp only [State.tell, there]
  rfl

/-- What an observer `name`, which is there when a request is registered, is told of it in the
steps of a run from then on. -/
structure LifeTold (i : Nat) (name : String) (p : Pending) (steps : List State) (u : State) :
    Prop where
  /-- Each time it is the observer that is called. -/
  called : ∀ x ∈ steps, ∀ moment, x.hears? i p.key = some moment →
    ∃ y, x.step = some y ∧ y.history = .observed name p.key moment :: x.history
  /-- It is told of the creation of the request once, with its kind. -/
  created : (tale i p.key steps u).filter Moment.begins = [.created p.kind]
  /-- It is told of an end once at most, with the outcome of the step that ended the request, and
  of none as long as there was no such step. -/
  finished : (tale i p.key steps u).filter Moment.ends = [] ∨ ∃ q ending,
    EndedIn steps p q ending ∧
    (tale i p.key steps u).filter Moment.ends = [.finished q.kind ending.outcome]
  /-- By the time it is told of the end, the callback was invoked once, with that outcome. -/
  outcome : ∀ before x after kind outcome, steps = before ++ x :: after →
    x.hears? i p.key = some (.finished kind outcome) → ∃ q ending event,
      EndedIn before p q ending ∧ kind = p.kind ∧ outcome = ending.outcome ∧
      x.callbacks p.key = [event] ∧ event.Reports q ending
  /-- Once nothing is under way it has been told all: of the end too, if there was one. -/
  idle : u.agenda = [] → u.untold i p.key = [] ∧ ∀ q ending, EndedIn steps p q ending →
    (told i p.key steps).filter Moment.ends = [.finished q.kind ending.outcome]
  /-- The creation comes before all else that it is told, and the end after all else, if and only
  if neither was ever overtaken on the way to it. -/
  order : (∀ x ∈ steps ++ [u], ¬ x.Overtaken i p.key) ↔
    (tale i p.key steps u).Pairwise fun a b => a.rank ≤ b.rank
  /-- What overtakes one of them takes a call made in the middle of a round. -/
  interrupted : ∀ before x after, steps ++ [u] = before ++ x :: after → x.Overtaken i p.key →
    Interrupted i p.key before x

/-- For every run, every request and every client's observer that was there when the request was
registered: the observer is told of its creation once, and of its end once if it has one, with the
outcome that the callback was given before; and it is told in order if and only if nothing ever
overtook the creation or the end on the way to it. -/
theorem life_told {earlier : List State} {name : String} {hooks : Hooks Call} (start : Start s₀)
    (course : Course s₀ (earlier ++ v :: steps) u) (bears : v.Bears w task p)
    (watches : v.observers[i]? = some (.watcher name hooks)) : LifeTold i name p steps u := by
  obtain ⟨toV, -, fromW⟩ := course.split_of_step bears.step
  have listens : v.listener? i = some (some name) := by
    rw [listener?, watches]
    rfl
  have account : ∀ {steps u}, Course w steps u →
      ∃ moments, Account i (some name) p steps u moments :=
    fun course => course.account start toV.reaches bears listens
  obtain ⟨moments, here⟩ := account fromW
  constructor
  case called =>
    intro x mem moment hears
    obtain ⟨before, after, rfl⟩ := List.append_of_mem mem
    obtain ⟨y, toX, stepX, -, -⟩ := fromW.split
    obtain ⟨moments, there⟩ := account toX
    obtain ⟨rest, ha⟩ := hears?_eq_some.1 hears
    have reached := (toV.reaches.tail bears.next).trans toX.reaches
    have alive := (reached.sane start.sane).alive_of_exposed (reached.sheltered start)
      (ha ▸ List.mem_cons_self) rfl
    obtain ⟨observer, found, same⟩ := Option.map_eq_some_iff.1 (there.watched alive)
    cases observer with
    | canceller => cases same
    | watcher name' hooks' =>
      cases same
      exact ⟨_, step_of_agenda ha, tell_watcher found⟩
  case created => exact here.created
  case finished => exact here.exists_ended
  case outcome =>
    intro before x after kind outcome cut hears
    subst cut
    obtain ⟨y, toX, -, -, -⟩ := fromW.split
    obtain ⟨moments, there⟩ := account toX
    obtain ⟨q, ending, event, ended, same, reports, paid⟩ :=
      there.announced (mem_untold_of_hears hears) rfl
    cases same
    exact ⟨q, ending, event, ended, ended.1.kind, rfl, by rw [callbacks_eq, paid], reports⟩
  case idle =>
    intro idle
    have nothing : u.untold i p.key = [] := by
      rw [untold, idle]
      rfl
    refine ⟨nothing, fun q ending ended => ?_⟩
    have all : tale i p.key steps u = told i p.key steps := by
      rw [tale, nothing, List.append_nil]
    have saneV := toV.sane start
    have saneW := bears.next.sane saneV
    have fateW := bears.next.fate saneV (toV.fate start p.key)
    rw [← all, here.finished]
    rcases here.phase.of_settled (fromW.settled_of_ended saneW fateW ended) fun r other also =>
      fromW.ended_once saneW fateW (bears.known saneV) also ended with same | ⟨task, mem, -⟩
    · exact same
    · rw [idle] at mem
      cases mem
  case order => exact ⟨here.order, fromW.not_overtaken start toV.reaches bears listens⟩
  case interrupted =>
    intro before x after cut overtaken
    exact (fromW.upTo cut).interrupted_of_bears start toV.reaches bears overtaken

/-- A run that can be followed shows what an observer is told of a request that a call registers
in it. -/
theorem exists_told_of_run {choices later : List Choice} {call : Call} {self : RequestId}
    {name : String} {heard : List Moment} (start : Start s₀)
    (run : (s₀.follow? choices).any fun b =>
      ((b.push [.issue call self]).take? .work).any fun w => (w.follow? later).any fun u =>
        (b.ledger.findExact? key).isNone && (w.ledger.findExact? key).isSome &&
          (u.agenda.isEmpty && decide (b.listener? i = some (some name)) &&
            decide (told i key (w.trail later) = heard))) :
    ∃ earlier v w p steps u, Course s₀ (earlier ++ v :: steps) u ∧
      v.Bears w (.issue call self) p ∧ (∃ hooks, v.observers[i]? = some (.watcher name hooks)) ∧
      u.agenda = [] ∧ told i p.key steps = heard := by
  obtain ⟨earlier, b, w, p, u, rfl, whole, bears, checked⟩ := exists_bears_of_run start run
  simp only [Bool.and_eq_true, List.isEmpty_iff, decide_eq_true_eq] at checked
  obtain ⟨⟨idle, listens⟩, told⟩ := checked
  refine ⟨earlier, _, w, p, _, u, whole, bears, ?_, idle, told⟩
  obtain ⟨observer, there, same⟩ := Option.map_eq_some_iff.1 listens
  cases observer with
  | canceller => cases same
  | watcher name' hooks =>
    cases same
    exact ⟨hooks, there⟩

/-- A request is accepted by the provider and then aborted: an observer hears of all three, in
order. -/
theorem life_told_of_delivered :
    ∃ (earlier : List State) (v w : State) (p : Pending) (steps : List State) (u : State),
      Course (ofManager true true) (earlier ++ v :: steps) u ∧
      v.Bears w (.issue (.create .getMetadata none false none [] [] []) ⟨0⟩) p ∧ u.agenda = [] ∧
      told 0 p.key steps = [.created .getMetadata, .delivered, .finished .getMetadata .aborted] ∧
      ∀ x ∈ steps ++ [u], ¬ x.Overtaken 0 p.key := by
  have run : ((ofManager true true).follow? [.call (.observe "o" {}) ⟨0⟩, .work]).any fun b =>
      ((b.push [.issue (.create .getMetadata none false none [] [] []) ⟨0⟩]).take? .work).any
        fun w => (w.follow? (List.replicate 3 .work ++ .call (.markDelivered (.given ⟨1⟩)) ⟨0⟩ ::
          List.replicate 4 .work ++ .call (.abort (.given ⟨1⟩)) ⟨0⟩ :: List.replicate 7 .work)).any
        fun u => (b.ledger.findExact? ⟨⟨1⟩, 1⟩).isNone && (w.ledger.findExact? ⟨⟨1⟩, 1⟩).isSome &&
          (u.agenda.isEmpty && decide (b.listener? 0 = some (some "o")) &&
          decide (told 0 ⟨⟨1⟩, 1⟩ (w.trail (List.replicate 3 .work ++
            .call (.markDelivered (.given ⟨1⟩)) ⟨0⟩ :: List.replicate 4 .work ++
            .call (.abort (.given ⟨1⟩)) ⟨0⟩ :: List.replicate 7 .work)) =
              [.created .getMetadata, .delivered, .finished .getMetadata .aborted])) := by
    decide +kernel
  obtain ⟨earlier, v, w, p, steps, u, whole, bears, ⟨hooks, watches⟩, idle, heard⟩ :=
    exists_told_of_run (.manager true true _) run
  have law := life_told (.manager true true _) whole bears watches
  refine ⟨earlier, v, w, p, steps, u, whole, bears, idle, heard, law.order.2 ?_⟩
  rw [tale, heard, (law.idle idle).1]
  decide

/-- Of two observers the first aborts each request as it is told of its creation.  The second is
told of the end first, and then of the creation. -/
theorem finished_told_before_created :
    ∃ (earlier : List State) (v w : State) (p : Pending) (steps : List State) (u : State),
      Course (ofManager true true) (earlier ++ v :: steps) u ∧
      v.Bears w (.issue (.create .getMetadata none false none [] [] []) ⟨0⟩) p ∧
      (∃ hooks, v.observers[1]? = some (.watcher "b" hooks)) ∧ u.agenda = [] ∧
      told 1 p.key steps = [.finished .getMetadata .aborted, .created .getMetadata] := by
  have run : ((ofManager true true).follow?
      [.call (.observe "a" { created := { steps := [.abort .self] } }) ⟨0⟩, .work,
        .call (.observe "b" {}) ⟨0⟩, .work]).any fun b =>
      ((b.push [.issue (.create .getMetadata none false none [] [] []) ⟨0⟩]).take? .work).any
        fun w => (w.follow? (List.replicate 12 .work)).any
        fun u => (b.ledger.findExact? ⟨⟨1⟩, 1⟩).isNone && (w.ledger.findExact? ⟨⟨1⟩, 1⟩).isSome &&
          (u.agenda.isEmpty && decide (b.listener? 1 = some (some "b")) &&
          decide (told 1 ⟨⟨1⟩, 1⟩ (w.trail (List.replicate 12 .work)) =
            [.finished .getMetadata .aborted, .created .getMetadata])) := by
    decide +kernel
  obtain ⟨earlier, v, w, p, steps, u, whole, bears, watches, idle, heard⟩ :=
    exists_told_of_run (.manager true true _) run
  exact ⟨earlier, v, w, p, steps, u, whole, bears, watches, idle, heard⟩

end State

end FileRelay
