import FileRelay.Proofs.Observers

/-!
# Telling the provider of cancellations

The first observer of a mount's requests is not a client's: it tells the provider of each request
that is given up, aborted or out of time, while the provider may still be at work on it.  There is
no other of its kind.  So the provider is told of a request as often as this observer is told of an
end of it by which it was given up.  That is once if there is such an end, and only after the
callback.  Whatever the provider does on being told finds the request ended for good.
-/

namespace FileRelay

/-- The request of which the provider was told that nobody waits for it any more. -/
def Event.cancelled? : Event → Option RequestKey
  | .cancelled key _ => some key
  | _ => none

/-- The failure that a callback was invoked with, if it was one. -/
def Event.failure? : Event → Option Failure
  | .failed _ _ failure | .done _ _ (.error failure) => some failure
  | _ => none

/-- Whether a moment is an end by which a request was given up. -/
def Moment.abandons : Moment → Bool
  | .finished _ outcome => outcome.abandoned
  | _ => false

/-- A task that has to be done before the provider is told that a request was given up: it brings
about the callback, or announces the end, or tells of it the observer that comes first. -/
def Task.Heralds (key : RequestKey) (task : Task) : Prop :=
  task.owed? = some key ∨
    ∃ moment, moment.ends ∧ (task = .announce key moment ∨ task = .tell 0 key moment)

/-- Who waits for a request that failed is given the failure. -/
theorem Event.Reports.failure? {p : Pending} {ending : Ending} {event : Event} {failure : Failure}
    (h : event.Reports p ending) (fails : ending.result = .error failure) :
    event.failure? = some failure := by
  cases h with
  | client owner =>
    rw [Ending.callback, fails]
    rfl
  | operation owner gives =>
    rw [Expectation.eq_error_of_gives gives fails]
    rfl

theorem Ending.exists_failure_of_abandoned {ending : Ending} (h : ending.outcome.abandoned) :
    ∃ failure, ending.result = .error failure := by
  cases ending with
  | aborted | timedOut => exact ⟨_, rfl⟩
  | completed | rejected | shutDown => cases h

theorem Moment.ends_of_abandons {moment : Moment} (h : moment.abandons) : moment.ends := by
  cases moment with
  | finished => rfl
  | _ => cases h

namespace State

variable {s t u v w : State} {task : Task} {rest : List Task} {key : RequestKey} {p q : Pending}
  {ending : Ending} {moment : Moment} {moments : List Moment} {steps : List State}
  {settings : MountSettings} {link : Link} {timersRun : Bool} {firstId : UInt32} {horizon : Nat}

/-- The times that the provider was told that nobody waits for a request any more. -/
def cancels (s : State) (key : RequestKey) : List Event :=
  s.history.filter (·.cancelled? = some key)

/-! ## Who tells the provider -/

/-- There is a mount, and the observer that comes first is the one that tells the provider. -/
structure Forwards (s : State) : Prop where
  mount : s.mount.isSome
  first : s.managerAlive → s.listener? 0 = some none
  only : ∀ i, s.listener? i = some none → i = 0

/-- No client's call adds an observer that tells the provider. -/
theorem Next.listener?_eq_none {i : Nat} (hn : Next s t) (h : t.listener? i = some none) :
    s.listener? i = some none := by
  cases hn with
  | work step fair =>
    obtain ⟨task, rest, ha, tidings⟩ := exists_tidings step
    have same : t.observers = s.observers → s.listener? i = some none := by
      intro observers
      rwa [State.listener?, observers] at h
    cases tidings with
    | hums _ _ h =>
      rcases h with h | ⟨-, _, _, _, -, -, -, round⟩
      · exact same h.observers
      · exact same round.observers
    | enters _ _ round => exact same round.observers
    | observe name hooks observers =>
      rw [State.listener?, observers, List.getElem?_append] at h
      split at h
      · exact h
      · obtain ⟨observer, there, other⟩ := Option.map_eq_some_iff.1 h
        rw [List.mem_singleton.1 (List.mem_of_getElem? there)] at other
        cases other
    | finish | announce | grant => exact same rfl
    | tell j request moment =>
      rw [tell_listener?] at h
      exact h
    | drop => cases h
  | call | rewind => exact h

theorem Next.forwards (hn : Next s t) (hs : s.Sane) (h : s.Forwards) : t.Forwards where
  mount := by
    have same := congrArg Option.isSome (hn.settings? hs.upkeep)
    rw [State.settings?, State.settings?, Option.isSome_map, Option.isSome_map] at same
    exact same.trans h.mount
  first := fun alive => hn.listener? alive (h.first (hn.alive_of_alive hs.upkeep alive))
  only := fun i canceller => h.only i (hn.listener?_eq_none canceller)

theorem Reaches.forwards (reached : Reaches (ofMount settings link timersRun firstId horizon) s) :
    s.Forwards := by
  refine reached.invariant (P := Forwards) ⟨rfl, fun _ => rfl, ?_⟩ fun _ _ hu hn h =>
    hn.forwards (hu.sane (Start.mount ..).sane) h
  intro i canceller
  cases i with
  | zero => rfl
  | succ i => cases canceller

/-! ## A step -/

theorem cancels_append_of_mute {events before : List Event} (mute : ∀ event ∈ events, event.mute) :
    (events ++ before).filter (·.cancelled? = some key) =
      before.filter (·.cancelled? = some key) := by
  have none : events.filter (·.cancelled? = some key) = [] := by
    rw [List.filter_eq_nil_iff]
    intro event mem
    have quiet := mute event mem
    cases event with
    | cancelled => cases quiet
    | _ => simp [Event.cancelled?]
  rw [List.filter_append, none, List.nil_append]

/-- Telling the provider of a request concerns this request. -/
theorem cancels_cancel (there : s.mount.isSome) (request : RequestKey) :
    ∃ shown, (s.cancel request).history = .cancelled request shown :: s.history := by
  unfold State.cancel
  split
  · rename_i none
    rw [none] at there
    cases there
  · split
    · split <;> exact ⟨_, rfl⟩
    · exact ⟨_, rfl⟩

theorem tell_canceller {i : Nat} (there : s.observers[i]? = some .canceller) (key : RequestKey)
    (moment : Moment) :
    s.tell i key moment = if moment.abandons then s.cancel key else s := by
  cases moment with
  | finished =>
    simp only [State.tell, there]
    rfl
  | created | delivered | progress => simp [State.tell, there, Moment.abandons]

/-- A client's observer does not tell the provider. -/
theorem cancels_tell_watcher {i : Nat} (other : s.listener? i ≠ some none) (request : RequestKey)
    (moment : Moment) : (s.tell i request moment).cancels key = s.cancels key := by
  unfold State.tell
  split
  · rfl
  · rename_i there
    rw [listener?, there] at other
    exact (other rfl).elim
  · rfl
  · exact List.filter_cons_of_neg (by simp [Event.cancelled?])

/-- In a step the provider is told of a request if the step tells the first observer that the
request was given up, and otherwise not. -/
theorem cancels_of_step (step : s.step = some t) (h : s.Forwards) (sane : s.Sane)
    (sheltered : Sheltered s.agenda) (key : RequestKey) :
    (t.cancels key = s.cancels key ∧ (s.hears? 0 key).all fun moment => !moment.abandons) ∨
    ∃ moment rest shown, s.agenda = .tell 0 key moment :: rest ∧ moment.abandons ∧
      t = State.cancel { s with agenda := rest } key ∧
      t.cancels key = .cancelled key shown :: s.cancels key := by
  obtain ⟨task, rest, ha, tidings⟩ := exists_tidings step
  have quiet : (∃ events, t.history = events ++ s.history ∧ ∀ event ∈ events, event.mute) →
      task.told? 0 key = none →
      t.cancels key = s.cancels key ∧ (s.hears? 0 key).all fun moment => !moment.abandons := by
    rintro ⟨events, history, mute⟩ silent
    rw [hears?_eq ha, silent, cancels, history, cancels_append_of_mute mute]
    exact ⟨rfl, rfl⟩
  cases tidings with
  | hums mute _ h =>
    rcases h with h | ⟨-, _, _, _, -, -, -, round⟩
    · exact .inl (quiet h.history (told?_of_mute mute))
    · exact .inl (quiet round.history (told?_of_mute mute))
  | enters _ _ round => exact .inl (quiet round.history rfl)
  | observe _ _ _ mute => exact .inl (quiet mute.history rfl)
  | finish p ending => exact .inl (quiet ⟨[_], rfl, by simp [Event.mute]⟩ rfl)
  | announce | drop => exact .inl (quiet ⟨[], rfl, by simp⟩ rfl)
  | grant => exact .inl (quiet ⟨[_], rfl, by simp [Event.mute]⟩ rfl)
  | tell j request moment =>
    have alive := sane.alive_of_exposed sheltered (ha ▸ List.mem_cons_self) rfl
    by_cases first : j = 0
    · subst first
      obtain ⟨observer, there, name⟩ := Option.map_eq_some_iff.1 (h.first alive)
      cases observer with
      | watcher => cases name
      | canceller =>
        rw [hears?_eq ha, tell_canceller (s := { s with agenda := rest }) there]
        cases abandons : moment.abandons with
        | false =>
          refine .inl ⟨rfl, ?_⟩
          rw [Task.told?]
          split <;> simp [abandons]
        | true =>
          obtain ⟨shown, history⟩ :=
            cancels_cancel (s := { s with agenda := rest }) h.mount request
          rw [if_pos rfl, cancels, history]
          by_cases own : request = key
          · subst own
            exact .inr ⟨moment, rest, shown, ha, abandons, rfl, by simp [Event.cancelled?, cancels]⟩
          · refine .inl ⟨?_, by simp [Task.told?, own]⟩
            rw [List.filter_cons_of_neg (by simpa [Event.cancelled?] using own)]
            rfl
    · refine .inl ⟨?_, by simp [hears?_eq ha, Task.told?, first]⟩
      exact cancels_tell_watcher (s := { s with agenda := rest }) (fun c => first (h.only j c)) _ _

/-! ## A run -/

/-- The provider has been told of a request as often as the first observer has been told that the
request was given up. -/
theorem Course.length_cancels
    (reached : Reaches (ofMount settings link timersRun firstId horizon) w)
    (none : w.cancels key = []) (course : Course w steps u) :
    (u.cancels key).length = ((told 0 key steps).filter Moment.abandons).length := by
  induction course with
  | start => rw [none]; rfl
  | @work steps x y course step fair ih =>
    have toX := reached.trans course.reaches
    have start : Start (ofMount settings link timersRun firstId horizon) := .mount ..
    rw [told_concat, List.filter_append, List.length_append, ← ih]
    rcases cancels_of_step step toX.forwards (toX.sane start.sane) (toX.sheltered start) key with
      ⟨same, other⟩ | ⟨moment, rest, shown, ha, abandons, -, told⟩
    · have none : (x.hears? 0 key).toList.filter Moment.abandons = [] := by
        cases hears : x.hears? 0 key with
        | none => rfl
        | some moment =>
          rw [hears] at other
          simpa using other
      rw [same, none]
      rfl
    · rw [told, hears?_eq ha, Task.told?, if_pos ⟨rfl, rfl⟩]
      simp [abandons]
  | call _ _ _ ih => exact ih
  | rewind _ _ ih => exact ih

/-- How the provider is told of a request that was registered, in the steps of a run from then
on. -/
structure CancelledWhenDue (p : Pending) (steps : List State) (u : State) : Prop where
  /-- It is told once at most. -/
  once : (u.cancels p.key).length ≤ 1
  /-- If the request was aborted, or its time ran out, then the provider has been told, or what is
  to be done first is still ahead. -/
  due : ∀ q ending, EndedIn steps p q ending → ending.outcome.abandoned →
    (u.cancels p.key).length = 1 ∨ ∃ task ∈ u.agenda, task.Heralds p.key
  /-- It is not told of a request that is outstanding. -/
  outstanding : (u.ledger.findExact? p.key).isSome → u.cancels p.key = []
  /-- It is not told of a request that ended otherwise: by its reply, by a refusal or as all were
  shut down. -/
  otherwise : ∀ q ending, EndedIn steps p q ending → ending.outcome.abandoned = false →
    u.cancels p.key = []
  /-- Each time it is told by a call of the first observer.  The request was given up before, and
  its callback invoked once, with the failure.  From then on the request stays ended, and its
  callback is not invoked again. -/
  told : ∀ before x after y, steps = before ++ x :: after → x.step = some y →
    y.cancels p.key ≠ x.cancels p.key →
    (∃ moment rest, x.agenda = .tell 0 p.key moment :: rest ∧
      y = State.cancel { x with agenda := rest } p.key) ∧
    ∃ q ending event failure, EndedIn before p q ending ∧ ending.outcome.abandoned ∧
      event.Reports q ending ∧ event.failure? = some failure ∧ x.callbacks p.key = [event] ∧
      u.callbacks p.key = [event] ∧ u.ledger.findExact? p.key = none

/-- What the first observer has been told of an end, with what it is still to be told. -/
theorem Account.told_ends {listener : Option String}
    (h : Account 0 listener p steps u moments) :
    (told 0 p.key steps).filter Moment.ends ++ (u.untold 0 p.key).filter Moment.ends = moments := by
  have finished := h.finished
  rwa [tale, List.filter_append] at finished

theorem filter_abandons (moments : List Moment) :
    moments.filter Moment.abandons = (moments.filter Moment.ends).filter Moment.abandons := by
  rw [List.filter_filter]
  refine List.filter_congr fun moment _ => ?_
  cases abandons : moment.abandons with
  | false => rfl
  | true => rw [Moment.ends_of_abandons abandons]; rfl

/-- The provider is told of no more than has been announced. -/
theorem Account.length_le {listener : Option String} (h : Account 0 listener p steps u moments) :
    ((told 0 p.key steps).filter Moment.abandons).length ≤
      (moments.filter Moment.abandons).length := by
  rw [← h.told_ends, List.filter_append, List.length_append, filter_abandons]
  exact Nat.le_add_right _ _

/-- Once a request was given up, the first observer has been told so, or what is to be done before
is still ahead. -/
theorem Account.due {listener : Option String} (h : Account 0 listener p steps u moments)
    (settled : (u.trace p.key).Settled q ending) (abandoned : ending.outcome.abandoned)
    (only : ∀ r other, EndedIn steps p r other → r = q ∧ other = ending) :
    ((told 0 p.key steps).filter Moment.abandons).length = 1 ∨
      ∃ task ∈ u.agenda, task.Heralds p.key := by
  rcases h.phase.of_settled settled only with rfl | ⟨task, mem, before⟩
  · have ends := h.told_ends
    cases ahead : (u.untold 0 p.key).filter Moment.ends with
    | nil =>
      rw [ahead, List.append_nil] at ends
      rw [filter_abandons, ends]
      exact .inl (by simp [Moment.abandons, abandoned])
    | cons moment _ =>
      -- It is to be told of the end.
      obtain ⟨mem, ends⟩ := List.mem_filter.1 (ahead ▸ List.mem_cons_self)
      obtain ⟨task, mem, tells⟩ := List.mem_filterMap.1 mem
      exact .inr ⟨task, mem, .inr ⟨moment, ends, .inr (told?_eq_some.1 tells)⟩⟩
  · exact .inr ⟨task, mem, before.imp_right fun ⟨moment, ends, same⟩ =>
      ⟨moment, ends, .inl same⟩⟩

/-- If a request ended otherwise, nothing was announced by which it was given up. -/
theorem Phase.not_abandons (h : Phase p steps u moments) (kept : ending.outcome.abandoned = false)
    (only : ∀ r other, EndedIn steps p r other → r = q ∧ other = ending) :
    moments.filter Moment.abandons = [] := by
  cases h with
  | announced ended =>
    obtain ⟨rfl, rfl⟩ := only _ _ ended
    simp [Moment.abandons, kept]
  | _ => rfl

/-- The provider has not been told of a request that has only been registered. -/
theorem Bears.cancels_eq_nil (reached : Reaches (ofMount settings link timersRun firstId horizon) v)
    (bears : v.Bears w task p) : w.cancels p.key = [] := by
  have start : Start (ofMount settings link timersRun firstId horizon) := .mount ..
  have toW := reached.tail bears.next
  have entry := (mem_of_trace (congrArg Trace.outstanding bears.after)).1
  rw [cancels, List.filter_eq_nil_iff]
  intro event mem cancelled
  cases event with
  | cancelled key shown =>
    obtain rfl : key = p.key := by simpa [Event.cancelled?] using cancelled
    have absent := ((toW.mourned start).told _ shown mem).absent
    rw [findExact?_of_mem (toW.sane start.sane).accounted entry] at absent
    cases absent
  | _ => simp [Event.cancelled?] at cancelled

/-- By the time that the provider is told of a request, this has been given up and its callback
invoked with the failure. -/
theorem Account.given_up {listener : Option String} (h : Account 0 listener p steps u moments)
    (ha : u.agenda = .tell 0 p.key moment :: rest) (abandons : moment.abandons) :
    ∃ q ending event failure, EndedIn steps p q ending ∧ ending.outcome.abandoned ∧
      event.Reports q ending ∧ event.failure? = some failure ∧
      u.trace p.key = { paid := [event] } := by
  obtain ⟨q, ending, event, ended, rfl, reports, paid⟩ := h.announced
    (mem_untold_of_hears (hears?_eq_some.2 ⟨rest, ha⟩)) (Moment.ends_of_abandons abandons)
  obtain ⟨failure, fails⟩ := Ending.exists_failure_of_abandoned abandons
  exact ⟨q, ending, event, failure, ended, abandons, reports, reports.failure? fails, paid⟩

/-- For every run of a mount and every request: the provider is told that nobody waits for the
request once, and after its callback was invoked, if it was aborted or its time ran out, and never
if it is outstanding or ended otherwise.  Whatever the provider does then, the request stays ended
and nobody is called again. -/
theorem cancelled_when_due {earlier : List State}
    (course : Course (ofMount settings link timersRun firstId horizon) (earlier ++ v :: steps) u)
    (bears : v.Bears w task p) : CancelledWhenDue p steps u := by
  have start : Start (ofMount settings link timersRun firstId horizon) := .mount ..
  obtain ⟨toV, -, fromW⟩ := course.split_of_step bears.step
  have saneV := toV.sane start
  have toW := toV.reaches.tail bears.next
  have saneW := toW.sane start.sane
  have fateW : w.Fate p.key := toW.fate start.sane (start.fate p.key)
  have listens : v.listener? 0 = some none := by
    have entry := (mem_of_trace (congrArg Trace.outstanding bears.after)).1
    have alive := saneW.upkeep.live (List.ne_nil_of_mem entry)
    exact toV.reaches.forwards.first (bears.next.alive_of_alive saneV.upkeep alive)
  have account : ∀ {steps u}, Course w steps u → ∃ moments, Account 0 none p steps u moments :=
    fun course => course.account start toV.reaches bears listens
  obtain ⟨moments, here⟩ := account fromW
  have count : (u.cancels p.key).length = _ :=
    fromW.length_cancels toW (bears.cancels_eq_nil toV.reaches)
  have le : (u.cancels p.key).length ≤ (moments.filter Moment.abandons).length :=
    count ▸ here.length_le
  have only : ∀ q ending, EndedIn steps p q ending → ∀ r other, EndedIn steps p r other →
      r = q ∧ other = ending :=
    fun q ending ended r other also => fromW.ended_once saneW fateW (bears.known saneV) also ended
  constructor
  case once =>
    exact Nat.le_trans le (Nat.le_trans (List.length_filter_le _ _) here.phase.length_le)
  case due =>
    intro q ending ended abandoned
    rw [count]
    exact here.due (fromW.settled_of_ended saneW fateW ended) abandoned (only q ending ended)
  case outstanding =>
    intro outstanding
    obtain ⟨q, found⟩ := Option.isSome_iff_exists.1 outstanding
    obtain ⟨mem, own⟩ := mem_of_findExact? found
    obtain rfl := here.phase.of_outstanding mem own
    exact List.eq_nil_of_length_eq_zero (Nat.le_zero.1 le)
  case otherwise =>
    intro q ending ended kept
    rw [here.phase.not_abandons kept (only q ending ended)] at le
    exact List.eq_nil_of_length_eq_zero (Nat.le_zero.1 le)
  case told =>
    intro before x after y cut stepX changes
    subst cut
    obtain ⟨toX, fairX, fromX⟩ := fromW.split_of_step stepX
    have reached := toW.trans toX.reaches
    have saneX := reached.sane start.sane
    have fateX : x.Fate p.key := reached.fate start.sane (start.fate p.key)
    have next : Next x y := .work stepX fairX
    obtain ⟨seen, there⟩ := account toX
    rcases cancels_of_step stepX reached.forwards saneX (reached.sheltered start) p.key with
      ⟨same, -⟩ | ⟨moment, rest, -, ha, abandons, rfl, -⟩
    · exact (changes same).elim
    · obtain ⟨q, ending, event, failure, ended, abandoned, reports, fails, paid⟩ :=
        there.given_up ha abandons
      have after := fromX.reaches.paid (next.sane saneX) (next.fate saneX fateX)
        (next.paid saneX fateX paid)
      refine ⟨⟨moment, rest, ha, rfl⟩, q, ending, event, failure, ended, abandoned, reports, fails,
        by rw [callbacks_eq, paid], by rw [callbacks_eq, after], ?_⟩
      rw [findExact?_eq, after]
      rfl

/-- A request is aborted by its slot.  The provider refuses to be told so, after it has tried to
abort the request itself: it has been told once all the same. -/
theorem cancelled_when_due_of_aborted :
    ∃ (settings : MountSettings) (link : Link) (earlier : List State) (v w : State) (p : Pending)
      (steps : List State) (u : State),
      Course (ofMount settings link true 1) (earlier ++ v :: steps) u ∧
      v.Bears w (.issue (.operate (.getMetadata "/a") none []) ⟨0⟩) p ∧
      CancelledWhenDue p steps u ∧ u.agenda = [] ∧ u.ledger.findExact? p.key = none ∧
      (u.cancels p.key).length = 1 := by
  have run : ((ofMount { info := { providerId := "p", fileSystemId := "f", displayName := "d" } }
      (.direct { cancelError := some .notFound, onCancel := [.abort .self] }) true 1).follow?
      []).any fun b =>
        ((b.push [.issue (.operate (.getMetadata "/a") none []) ⟨0⟩]).take? .work).any fun w =>
          (w.follow? (List.replicate 6 .work ++ .call (.abortSlot 0) ⟨0⟩ ::
            List.replicate 10 .work)).any fun u =>
            (b.ledger.findExact? ⟨⟨1⟩, 1⟩).isNone && (w.ledger.findExact? ⟨⟨1⟩, 1⟩).isSome &&
              (u.agenda.isEmpty && (u.ledger.findExact? ⟨⟨1⟩, 1⟩).isNone &&
                decide ((u.cancels ⟨⟨1⟩, 1⟩).length = 1)) := by
    decide +kernel
  obtain ⟨earlier, b, w, p, u, own, whole, bears, checked⟩ :=
    exists_bears_of_run (.mount _ _ true 1 _) run
  rw [← own] at checked
  simp only [Bool.and_eq_true, List.isEmpty_iff, Option.isNone_iff_eq_none,
    decide_eq_true_eq] at checked
  obtain ⟨⟨idle, gone⟩, once⟩ := checked
  exact ⟨_, _, earlier, _, w, p, _, u, whole, bears, cancelled_when_due whole bears, idle, gone,
    once⟩

end State

end FileRelay
