import FileRelay.Proofs.Deed
import FileRelay.Proofs.Completion
import FileRelay.Proofs.Facade

/-!
# Handing requests over

A request is handed to the provider some tasks after it was registered: the observers are
told of it first, and may abort it, let its time run out or take the mount down.  Nobody
looks whether the request is still outstanding by the time that it is handed over.  It is
unless one of the steps in between ended it, in which case the provider is given a request
that it may have been told to forget already, and whose caller may know how it ended.
-/

namespace FileRelay

/-- The request whose end doing a task tells of. -/
def Task.mourned? : Task → Option RequestKey
  | .announce key (.finished ..) | .tell _ key (.finished ..) => some key
  | _ => none

/-- Whether an observer does nothing when it is told of a new request. -/
def Observer.idle : Observer → Bool
  | .canceller => true
  | .watcher _ hooks => hooks.created.steps.isEmpty

namespace State

variable {s₀ s t v w : State} {task x : Task} {rest : List Task} {key : RequestKey}
  {content : Request}

/-- What is told of the end of a request, now or next, is told of one that is outstanding no
longer. -/
structure Mourns (s : State) (key : RequestKey) : Prop where
  known : key.serial < s.ledger.nextSerial
  absent : s.ledger.findExact? key = none

theorem Next.mourns (hn : Next s t) (hs : s.Sane) (hf : s.Fate key) (h : s.Mourns key) :
    t.Mourns key :=
  ⟨Nat.lt_of_lt_of_le h.known (hn.nextSerial_le hs), hn.absent hs hf h.known h.absent⟩

/-- A request that owes its callback is outstanding no longer. -/
theorem Fate.mourns (h : s.Fate key) (hx : x ∈ s.agenda) (owed : x.owed? = some key) :
    s.Mourns key := by
  have mem : x ∈ (s.trace key).owed := List.mem_filter.2 ⟨hx, by simpa using owed⟩
  cases h with
  | nothing nothing =>
    rw [nothing] at mem
    cases mem
  | outstanding _ entry =>
    rw [entry] at mem
    cases mem
  | settled known _ settled =>
    refine ⟨known, ?_⟩
    rw [findExact?_eq, settled.outstanding_eq_nil]
    rfl

/-- Where the end of a request is told of, or was told to the provider, the request is
outstanding no longer. -/
structure Mourned (s : State) : Prop where
  ahead : ∀ x ∈ s.agenda, ∀ key, x.mourned? = some key → s.Mourns key
  told : ∀ key shown, .cancelled key shown ∈ s.history → s.Mourns key

theorem Next.mourned (hn : Next s t) (hs : s.Sane) (hf : ∀ key, s.Fate key) (h : s.Mourned) :
    t.Mourned := by
  have later : ∀ {key}, s.Mourns key → t.Mourns key := fun h => hn.mourns hs (hf _) h
  cases hn with
  | work step fair =>
    obtain ⟨task, rest, ha, deed⟩ := hs.exists_deed step
    have first : task ∈ s.agenda := ha ▸ List.mem_cons_self
    constructor
    · intro x hx key hk
      cases deed.brings hx with
      | old hx => exact later (h.ahead x (ha ▸ List.mem_cons_of_mem _ hx) key hk)
      | sets sets =>
        cases sets with
        | calm calm =>
          exfalso
          unfold Task.mourned? at hk
          split at hk
          · cases calm
          · cases calm
          · cases hk
        | announce p ending => exact later ((hf key).mourns first hk)
        | tell observer request moment =>
          refine later (h.ahead _ first key ?_)
          cases moment with
          | finished => exact hk
          | created | delivered | progress => cases hk
        | closeFiles => cases hk
      | handOver | pass | resume => cases hk
    · intro key shown he
      rcases deed.records he with old | records | ⟨p, reply, tag, -, -, part⟩
      · exact later (h.told key shown old)
      · cases records with
        | calm calm => cases calm
        | cancelled => exact later (h.ahead _ first key rfl)
      · cases part
  | call call self =>
    refine ⟨?_, fun key shown he => later (h.told key shown he)⟩
    intro x hx key hk
    rcases List.mem_cons.1 hx with rfl | hx
    · cases hk
    · exact later (h.ahead x hx key hk)
  | rewind n =>
    exact ⟨fun x hx key hk => later (h.ahead x hx key hk),
      fun key shown he => later (h.told key shown he)⟩

theorem Start.mourned (h : Start s) : s.Mourned := by
  have nothing : ∀ u : State, u.agenda = [] → (∀ event ∈ u.history, event.calm) → u.Mourned := by
    intro u agenda history
    constructor
    · intro x hx
      rw [agenda] at hx
      cases hx
    · intro key shown he
      cases history _ he
  cases h with
  | manager => exact nothing _ rfl (by simp [ofManager])
  | mount => exact nothing _ rfl (by simp [ofMount, note, emit, Event.calm])

theorem Reaches.mourned (start : Start s₀) (h : Reaches s₀ s) : s.Mourned :=
  h.invariant start.mourned fun _ _ hu hn hm =>
    hn.mourned (hu.sane start.sane) (fun key => hu.fate start.sane (start.fate key)) hm

/-! ## Where a request to be handed over comes from -/

/-- A step accepts an operation, whose request is to be handed over with some content. -/
structure Dispatches (v w : State) (key : RequestKey) (content : Request) : Prop where
  next : Next v w
  starts : ∃ operation tag followUp m, v.Starts w operation tag followUp key ∧
    v.heldMount? = some m ∧ operation.request m.settings.info m.mounted m.files = .ok content
  agenda : ∃ front back, w.agenda = front ++ .handOver key content :: back ∧
    front = v.tells key (.created content.kind)

theorem Course.exists_dispatches {steps : List State} (start : Start s₀)
    (course : Course s₀ steps s) (hx : .handOver key content ∈ s.agenda) :
    ∃ first v last w, steps = first ++ v :: last ∧ v.Dispatches w key content := by
  induction course with
  | start => cases start <;> cases hx
  | @work steps u t course step fair ih =>
    have old : .handOver key content ∈ u.agenda → ∃ first v last w,
        steps ++ [u] = first ++ v :: last ∧ v.Dispatches w key content := by
      intro hx
      obtain ⟨first, v, last, w, rfl, dispatches⟩ := ih hx
      exact ⟨first, v, last ++ [u], w, by simp, dispatches⟩
    have sane := course.reaches.sane start.sane
    obtain ⟨task, rest, ha, deed⟩ := sane.exists_deed step
    generalize he : Task.handOver key content = x at hx
    cases deed.brings hx with
    | old hx => exact old (he ▸ ha ▸ List.mem_cons_of_mem _ hx)
    | sets sets =>
      subst he
      cases sets with
      | calm calm => cases calm
    | @handOver operation tag followUp self m content' p named enters held request agenda =>
      cases he
      subst named
      have hn : Next u t := .work step fair
      have bears := enters.bears hn sane (course.reaches.fate start.sane (start.fate _)) ha step
      have after := (mem_of_trace (congrArg Trace.outstanding bears.after)).1
      have none : u.ledger.findExact? p.key = none := by
        rw [findExact?_eq, bears.before]
        rfl
      obtain ⟨owner, named, same⟩ := bears.owner
      cases named
      refine ⟨steps, u, [], t, rfl, hn, ⟨operation, tag, followUp, m, ?_, held, request⟩, agenda⟩
      exact ⟨step, ⟨self, rest, ha⟩, none, p,
        findExact?_of_mem (hn.sane sane).accounted after, same⟩
    | pass | resume => cases he
  | call _ call self ih =>
    rcases List.mem_cons.1 hx with he | hx
    · cases he
    · exact ih hx
  | rewind _ n ih => exact ih hx

theorem Reaches.exists_dispatches (start : Start s₀) (h : Reaches s₀ s)
    (hx : .handOver key content ∈ s.agenda) :
    ∃ v w, Reaches s₀ v ∧ v.Dispatches w key content ∧ Reaches w s := by
  obtain ⟨steps, course⟩ := h.exists_course
  obtain ⟨first, v, last, w, rfl, dispatches⟩ := course.exists_dispatches start hx
  obtain ⟨operation, tag, followUp, m, starts, -⟩ := dispatches.starts
  obtain ⟨toV, -, fromW⟩ := course.split_of_step starts.step
  exact ⟨v, w, toV.reaches, dispatches, fromW.reaches⟩

/-! ## On the way to the provider -/

/-- Telling an observer who does nothing at the creation of a request of just that. -/
theorem tell_of_idle (i : Nat) (key : RequestKey) (kind : Request.Kind)
    (idle : ∀ o ∈ s.observers, o.idle) :
    ∃ t, s.tell i key (.created kind) = t ∧ t.agenda = s.agenda ∧ t.ledger = s.ledger ∧
      ∀ o ∈ t.observers, o.idle := by
  refine ⟨_, rfl, ?_⟩
  unfold State.tell
  cases ho : s.observers[i]? with
  | none => exact ⟨rfl, rfl, idle⟩
  | some o =>
    have ho' := idle o (List.mem_of_getElem? ho)
    cases o with
    | canceller => exact ⟨rfl, rfl, idle⟩
    | watcher name hooks =>
      have none : hooks.created.steps = [] := List.isEmpty_iff.1 ho'
      refine ⟨?_, rfl, ?_⟩
      · simp [Hooks.turn, Hook.turn, none, State.push, Task.script, emit]
      · intro o ho
        rcases List.mem_or_eq_of_mem_set ho with ho | rfl
        · exact idle o ho
        · exact ho'

/-- If no observer does anything at the creation of a request, working off what tells them of
it comes to what is next, and the same requests are outstanding. -/
theorem follow?_tells {front rest : List Task} {kind : Request.Kind}
    (idle : ∀ o ∈ s.observers, o.idle) (ha : s.agenda = front ++ rest)
    (tells : ∀ x ∈ front, ∃ i, x = .tell i key (.created kind)) :
    ∃ t, s.follow? (List.replicate front.length .work) = some t ∧ t.agenda = rest ∧
      t.ledger = s.ledger := by
  induction front generalizing s with
  | nil => exact ⟨s, rfl, ha, rfl⟩
  | cons x front ih =>
    obtain ⟨i, rfl⟩ := tells x List.mem_cons_self
    obtain ⟨t, told, agenda, ledger, idle'⟩ :=
      tell_of_idle (s := { s with agenda := front ++ rest }) i key kind idle
    obtain ⟨u, hu, hua, hul⟩ := ih idle' agenda fun x hx => tells x (List.mem_cons_of_mem _ hx)
    have fair : s.trespasses? = false := by
      rw [trespasses?, ha]
      simp
    refine ⟨u, ?_, hua, hul.trans ledger⟩
    rw [List.length_cons, List.replicate_succ, follow?, take?, if_neg (by simp [fair]),
      step_of_agenda ha]
    show (some (State.tell _ i key (.created kind))).bind _ = some u
    rw [Option.bind_some]
    exact told ▸ hu

/-! ## At the provider -/

/-- For every run, whatever is called in it and when: each request that is handed to the
provider is that of an operation accepted before.  It is still outstanding, with its caller
told nothing and the provider not told to forget it, or a step after the acceptance has ended
it.  The latter takes somebody who acts in between: as long as no observer does anything at
the creation of a request, what is next after telling them of it is to hand over a request
that is outstanding. -/
theorem handOver_outstanding_or_ended (start : Start s₀) (reached : Reaches s₀ s)
    (ahead : s.agenda = .handOver key content :: rest) :
    ∃ v w, Reaches s₀ v ∧ v.Dispatches w key content ∧ Reaches w s ∧
      ((s.ledger.findExact? key).isSome ∧ s.callbacks key = [] ∧
          (∀ shown, .cancelled key shown ∉ s.history) ∨
        s.ledger.findExact? key = none ∧
          ∃ x y q ending, Reaches w x ∧ x.Ends y q ending ∧ q.key = key ∧ Reaches y s) ∧
      ((∀ o ∈ w.observers, o.idle) → ∃ n x, w.follow? (List.replicate n .work) = some x ∧
        x.agenda.head? = some (.handOver key content) ∧ (x.ledger.findExact? key).isSome) := by
  obtain ⟨v, w, hv, dispatches, hw⟩ :=
    reached.exists_dispatches start (ahead ▸ List.mem_cons_self)
  obtain ⟨operation, tag, followUp, m, starts, -⟩ := dispatches.starts
  obtain ⟨p, created, same⟩ := starts.after
  have toW : Reaches s₀ w := hv.tail dispatches.next
  refine ⟨v, w, hv, dispatches, hw, ?_, ?_⟩
  · obtain ⟨own, -, life⟩ := life_of_findExact? start toW created hw
    rw [callbacks_eq, findExact?_eq, ← own]
    cases life with
    | outstanding _ entry =>
      rw [entry]
      refine .inl ⟨rfl, rfl, ?_⟩
      intro shown told
      have absent := ((reached.mourned start).told p.key shown told).absent
      rw [findExact?_eq, entry] at absent
      cases absent
    | @settled x y q ending before ends after same _ settled =>
      rw [settled.outstanding_eq_nil]
      exact .inr ⟨rfl, x, y, q, ending, before, ends, same.key, after⟩
    | lost client =>
      rw [same.isOperation_eq] at client
      cases client
  · intro idle
    obtain ⟨front, back, agenda, rfl⟩ := dispatches.agenda
    obtain ⟨x, hx, next, ledger⟩ := follow?_tells idle agenda fun x hx => by
      obtain ⟨i, -, rfl⟩ := List.mem_map.1 hx
      exact ⟨i, rfl⟩
    refine ⟨_, x, hx, by rw [next]; rfl, ?_⟩
    rw [ledger, created]
    rfl

/-- A mount is asked for the metadata of an entry, and hands the request over. -/
theorem handOver_outstanding_or_ended_of_getMetadata :
    ∃ s key, (s.ledger.findExact? key).isSome ∧ s.agenda.head? =
        some (.handOver key (.getMetadata "/a")) ∧
      ∃ v w : State, v.Dispatches w key (.getMetadata "/a") ∧ Reaches w s := by
  obtain ⟨s, rest, hs, ahead, outstanding⟩ : ∃ s rest,
      (ofMount { info := { providerId := "p", fileSystemId := "f", displayName := "d" } }
        (.direct {}) true).follow?
          [.call (.operate (.getMetadata "/a") none []) ⟨0⟩, .work, .work] = some s ∧
        s.agenda = .handOver ⟨⟨1⟩, 1⟩ (.getMetadata "/a") :: rest ∧
        (s.ledger.findExact? ⟨⟨1⟩, 1⟩).isSome :=
    ⟨_, _, rfl, rfl, rfl⟩
  obtain ⟨v, w, -, dispatches, hw, -⟩ := handOver_outstanding_or_ended
    (.mount _ _ true 1 _) (reaches_of_follow? hs) ahead
  exact ⟨s, ⟨⟨1⟩, 1⟩, outstanding, by rw [ahead]; rfl, v, w, dispatches, hw⟩

/-- An observer aborts each request as it is created.  The request is handed over all the
same, after its caller was told that it was aborted and the provider to forget it. -/
theorem handOver_of_aborted :
    ∃ s t key, Reaches (ofMount
        { info := { providerId := "p", fileSystemId := "f", displayName := "d" } }
        (.direct {}) true) s ∧
      s.ledger.findExact? key = none ∧ .done key none (.error .aborted) ∈ s.history ∧
      .cancelled key true ∈ s.history ∧ s.step = some t ∧
      t.history = .handedOver key (.getMetadata "/a") true :: s.history := by
  obtain ⟨s, rest, settings, files, mounted, holders, link, hs, ahead, history, mount, absent⟩ :
      ∃ s rest settings files mounted holders link,
        (ofMount { info := { providerId := "p", fileSystemId := "f", displayName := "d" } }
          (.direct {}) true).follow? (
            [.call (.observe "o" { created := { steps := [.abort .self] } }) ⟨0⟩,
            .work, .call (.operate (.getMetadata "/a") none []) ⟨0⟩] ++
              List.replicate 13 .work) = some s ∧
        s.agenda = .handOver ⟨⟨1⟩, 1⟩ (.getMetadata "/a") :: rest ∧
        (s.history.drop 2).take 2 =
          [.cancelled ⟨⟨1⟩, 1⟩ true, .done ⟨⟨1⟩, 1⟩ none (.error .aborted)] ∧
        s.mount = some ⟨settings, files, mounted, holders, .direct link⟩ ∧
        s.ledger.findExact? ⟨⟨1⟩, 1⟩ = none :=
    ⟨_, _, _, _, _, _, _, rfl, rfl, rfl, rfl, rfl⟩
  have told : ∀ event ∈ (s.history.drop 2).take 2, event ∈ s.history :=
    fun event mem => List.mem_of_mem_drop (List.mem_of_mem_take mem)
  rw [history] at told
  refine ⟨s, _, ⟨⟨1⟩, 1⟩, reaches_of_follow? hs, absent, told _ (by simp), told _ (by simp),
    step_of_agenda ahead, ?_⟩
  show (State.handOver _ _ _).history = _
  rw [State.handOver, mount]
  rfl

end State

end FileRelay
