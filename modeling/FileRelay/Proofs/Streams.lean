import FileRelay.Proofs.Parts

/-!
# Replies in parts

Each part that a request takes is passed on to it exactly once, in the order in which they
were taken, and once it has been passed on the request takes parts again.  A part that is
accepted while the request is still busy with another one is lost, though: whoever delivers
it is told that it was accepted.  And a part is passed on even after the request has ended,
if its end came between the taking of the part and its being passed on.  Either takes
somebody who answers the request out of an observer's hook or a callback of the very part
that is under way.
-/

namespace FileRelay

namespace State

variable {s₀ s t u v w x : State} {task : Task} {rest : List Task} {key : RequestKey}
  {p q : Pending} {reply : Reply} {steps before after : List State}

/-! ## Whom a part concerns -/

/-- Whatever concerns a part of a reply concerns a request that was registered. -/
structure Heard (s : State) : Prop where
  ahead : ∀ x ∈ s.agenda, ∀ key, x.occupant? = some key → key.serial < s.ledger.nextSerial
  told : ∀ event ∈ s.history, ∀ key reply, event.part? key = some reply →
    key.serial < s.ledger.nextSerial

theorem Next.heard (hn : Next s t) (hs : s.Sane) (hf : ∀ key, s.Fate key) (h : s.Heard) :
    t.Heard := by
  have later : ∀ {n : Nat}, n < s.ledger.nextSerial → n < t.ledger.nextSerial :=
    fun h => Nat.lt_of_lt_of_le h (hn.nextSerial_le hs)
  cases hn with
  | work step fair =>
    obtain ⟨task, rest, ha, deed⟩ := hs.exists_deed step
    have first : task ∈ s.agenda := ha ▸ List.mem_cons_self
    constructor
    · intro x hx key hk
      cases deed.brings hx with
      | old hx => exact later (h.ahead x (ha ▸ List.mem_cons_of_mem _ hx) key hk)
      | sets sets =>
        rw [occupant?_of_sets sets] at hk
        cases hk
      | handOver => cases hk
      | @pass p _ found =>
        rw [Task.occupant?, Option.ite_none_right_eq_some] at hk
        cases hk.2
        exact later ((hf p.key).of_mem (List.mem_of_find?_eq_some found)).1
      | @resume p reply named accepting =>
        cases hk
        subst named
        exact later (h.ahead _ first p.key (if_pos accepting))
    · intro event he key reply part
      rcases deed.records he with old | records | ⟨p, reply', tag, rfl, accepting, rfl⟩
      · exact later (h.told event old key reply part)
      · rw [part?_of_records records] at part
        cases part
      · rw [Event.part?, Option.ite_none_right_eq_some] at part
        rw [← part.1]
        exact later (h.ahead _ first p.key (if_pos accepting))
  | call call self =>
    refine ⟨?_, fun event he key reply part => later (h.told event he key reply part)⟩
    intro x hx key hk
    rcases List.mem_cons.1 hx with rfl | hx
    · cases hk
    · exact later (h.ahead x hx key hk)
  | rewind n => exact ⟨h.ahead, h.told⟩

theorem Start.heard (h : Start s) : s.Heard := by
  have nothing : ∀ u : State, u.agenda = [] → (∀ event ∈ u.history, event.calm) → u.Heard := by
    intro u agenda history
    constructor
    · intro x hx
      rw [agenda] at hx
      cases hx
    · intro event he key reply part
      rw [part?_of_calm (history event he)] at part
      cases part
  cases h with
  | manager => exact nothing _ rfl (by simp [ofManager])
  | mount => exact nothing _ rfl (by simp [ofMount, note, emit, Event.calm])

theorem Reaches.heard (start : Start s₀) (h : Reaches s₀ s) : s.Heard :=
  h.invariant start.heard fun _ _ hu hn hh =>
    hn.heard (hu.sane start.sane) (fun key => hu.fate start.sane (start.fate key)) hh

/-! ## A new request -/

/-- What a request is when it is registered. -/
theorem Bears.enters (h : v.Bears w task p) (hv : v.Sane) :
    ∃ rest, v.agenda = task :: rest ∧ Enters task p { v with agenda := rest } w := by
  obtain ⟨owner, named, same⟩ := h.owner
  obtain ⟨task', rest, ha, deed⟩ := hv.exists_deed h.step
  obtain ⟨rest', ha'⟩ := h.first
  obtain ⟨rfl, rfl⟩ := List.cons_eq_cons.1 (ha.symm.trans ha')
  obtain ⟨mem, -⟩ := mem_of_trace (congrArg Trace.outstanding h.after)
  -- It was not there before, so it is the one that entered.
  have new : ∀ q ∈ v.ledger.entries, q.key ≠ p.key :=
    fun q hq => not_mem_of_trace (by rw [h.before]) hq
  have entered : ∀ q, Enters task' q { v with agenda := rest } w →
      ∃ rest, v.agenda = task' :: rest ∧ Enters task' p { v with agenda := rest } w := by
    intro q enters
    rw [enters.ledger] at mem
    rcases List.mem_append.1 mem with mem | mem
    · exact (new p (List.mem_filter.1 mem).1 rfl).elim
    · rw [List.mem_singleton.1 mem]
      exact ⟨rest, ha, enters⟩
  cases deed with
  | calm _ _ h =>
    obtain ⟨q, hq, alike⟩ := h.entries p mem
    exact (new q hq alike.key.symm).elim
  | create _ enters => exact entered _ enters
  | operate enters => exact entered _ enters
  | take _ delivery =>
    rw [(delivery?_of_owner? named).2] at delivery
    cases delivery
  | pass | resume | complete | closeFiles => cases named

theorem Bears.serial (h : v.Bears w task p) (hv : v.Sane) :
    p.serial = v.ledger.nextSerial ∧ w.ledger.nextSerial = v.ledger.nextSerial + 1 := by
  obtain ⟨rest, -, enters⟩ := h.enters hv
  exact ⟨enters.serial, by rw [enters.ledger]; rfl⟩

/-- A serial number that was given is less than the next. -/
theorem Bears.known (h : v.Bears w task p) (hv : v.Sane) :
    p.key.serial < w.ledger.nextSerial := by
  obtain ⟨serial, next⟩ := h.serial hv
  rw [next, Pending.key, serial]
  exact Nat.lt_succ_self _

/-- A request starts without anything to do with a part. -/
theorem Bears.quiet (h : v.Bears w task p) (hv : v.Sane) (heard : v.Heard) :
    w.occupants p.key = [] ∧ w.parts p.key = [] := by
  obtain ⟨rest, ha, enters⟩ := h.enters hv
  obtain ⟨task', rest', ha', deed⟩ := hv.exists_deed h.step
  obtain ⟨rfl, rfl⟩ := List.cons_eq_cons.1 (ha'.symm.trans ha)
  have new : ¬ p.key.serial < v.ledger.nextSerial := by
    have serial : p.key.serial = v.ledger.nextSerial := enters.serial
    omega
  constructor
  · rw [occupants, List.filter_eq_nil_iff]
    intro x hx
    rw [decide_eq_true_eq]
    intro hk
    cases deed.brings hx with
    | old hx => exact new (heard.ahead x (ha ▸ List.mem_cons_of_mem _ hx) p.key hk)
    | sets sets =>
      rw [occupant?_of_sets sets] at hk
      cases hk
    | handOver => cases hk
    | pass found delivery =>
      rw [(delivery?_of_owner? enters.owner).2] at delivery
      cases delivery
    | resume named =>
      have owner := enters.owner
      rw [named] at owner
      cases owner
  · rw [parts, List.filterMap_eq_nil_iff]
    intro event he
    obtain ⟨events, history, calm⟩ := enters.silent
    rw [List.mem_reverse, history] at he
    rcases List.mem_append.1 he with he | he
    · exact part?_of_calm (calm event he)
    · cases hp : event.part? p.key with
      | none => rfl
      | some reply => exact (new (heard.told event he p.key reply hp)).elim

/-! ## The flow of parts -/

/-- How the parts of the reply to a request flow, after some steps of a run. -/
structure Flow (p : Pending) (steps : List State) (u : State) : Prop where
  /-- What was taken has been passed on, or is underway. -/
  order : steps.filterMap (·.passes? p.key) ++ u.underway p.key =
    steps.filterMap (·.takes? p.key)
  /-- The request is busy with one part at a time. -/
  alone : (u.occupants p.key).length ≤ 1
  /-- It takes another one just when it is not busy. -/
  free : ∀ q, u.ledger.findExact? p.key = some q → (q.accepting ↔ u.occupants p.key = [])
  /-- An operation has been given what was passed on. -/
  given : ∀ q, u.ledger.findExact? p.key = some q →
    q.owner = p.owner.collectAll (steps.filterMap (·.passes? p.key))
  /-- What is underway goes to the one who waits. -/
  bound : ∀ q reply, .pass q reply ∈ u.occupants p.key →
    q.owner.isOperation = p.owner.isOperation
  /-- The callback of a client has been given what was passed on. -/
  told : p.owner.isOperation = false → u.parts p.key = steps.filterMap (·.passes? p.key)

/-- A task that keeps a request busy delivers nothing to it. -/
theorem takes?_of_occupant (ha : u.agenda = task :: rest) (h : task.occupant? = some key) :
    u.takes? key = none := by
  refine takes?_eq_none ha fun p reply _ _ delivered => ?_
  rw [occupant?_of_delivery? delivered] at h
  cases h

theorem Flow.start (h : v.Bears w task p) (hv : v.Sane) (hw : w.Sane) (heard : v.Heard)
    (streams : task.streams) : Flow p [] w := by
  obtain ⟨rest, ha, enters⟩ := h.enters hv
  obtain ⟨occupants, parts⟩ := h.quiet hv heard
  have found : w.ledger.findExact? p.key = some p :=
    findExact?_of_mem hw.accounted (mem_of_trace (congrArg Trace.outstanding h.after)).1
  refine ⟨?_, ?_, ?_, ?_, ?_, fun _ => parts⟩
  · rw [underway_eq, occupants]
    rfl
  · rw [occupants]
    exact Nat.zero_le 1
  · intro q hq
    rw [found] at hq
    cases hq
    rw [enters.streams, streams, occupants]
    simp
  · intro q hq
    rw [found] at hq
    cases hq
    rfl
  · intro q reply hq
    rw [occupants] at hq
    cases hq

theorem filterMap_concat (f : State → Option Reply) (steps : List State) (u : State) :
    (steps ++ [u]).filterMap f = steps.filterMap f ++ (f u).toList := by
  rw [List.filterMap_append, List.filterMap_cons, List.filterMap_nil]
  cases f u <;> rfl

/-- A task that keeps a request busy is the only one, and doing it passes on what is underway,
if anything. -/
theorem Flow.only (h : Flow p steps u) (ha : u.agenda = task :: rest)
    (occupant : task.occupant? = some p.key) :
    ({ u with agenda := rest } : State).occupants p.key = [] ∧
      (steps ++ [u]).filterMap (·.passes? p.key) = (steps ++ [u]).filterMap (·.takes? p.key) := by
  have alone := h.alone
  have order := h.order
  have busy := occupants_of_occupant ha occupant
  rw [busy, List.length_cons, Nat.succ_le_succ_iff, Nat.le_zero, List.length_eq_zero_iff] at alone
  rw [underway_eq, busy, alone] at order
  refine ⟨alone, ?_⟩
  rw [filterMap_concat, filterMap_concat, takes?_of_occupant ha occupant, passes?_of_agenda ha,
    ← order, List.filterMap_cons, List.filterMap_nil]
  cases task.part? p.key <;> simp

section step

variable (h : Flow p steps u) (ha : u.agenda = task :: rest)
include h ha

/-- A step that has nothing to do with the parts goes on with the flow. -/
theorem Flow.aloof (free : task.occupant? ≠ some p.key) (untaken : u.takes? p.key = none)
    (occupants : t.occupants p.key = u.occupants p.key) (parts : t.parts p.key = u.parts p.key)
    (entry : ∀ q, t.ledger.findExact? p.key = some q →
      ∃ r, u.ledger.findExact? p.key = some r ∧ r.Alike q) : Flow p (steps ++ [u]) t := by
  have passed : u.passes? p.key = none := (passes?_of_agenda ha).trans (part?_eq_none free)
  have flown : (steps ++ [u]).filterMap (·.passes? p.key) = steps.filterMap (·.passes? p.key) := by
    rw [filterMap_concat, passed, Option.toList_none, List.append_nil]
  refine ⟨?_, ?_, ?_, ?_, ?_, ?_⟩
  · rw [flown, filterMap_concat, untaken, underway_eq, occupants, ← underway_eq]
    simpa using h.order
  · rw [occupants]
    exact h.alone
  · intro q hq
    obtain ⟨r, hr, alike⟩ := entry q hq
    rw [alike.accepting, occupants]
    exact h.free r hr
  · intro q hq
    obtain ⟨r, hr, alike⟩ := entry q hq
    rw [alike.owner, flown]
    exact h.given r hr
  · intro q reply hq
    rw [occupants] at hq
    exact h.bound q reply hq
  · intro client
    rw [parts, flown]
    exact h.told client

/-- A request that takes a part is busy with it. -/
theorem Flow.take (free : task.occupant? = none) (taken : u.takes? p.key = some reply)
    (found : u.ledger.findExact? p.key = some q) (accepting : q.accepting)
    (occupants : t.occupants p.key = .pass q reply :: u.occupants p.key)
    (parts : t.parts p.key = u.parts p.key)
    (entry : ∀ r, t.ledger.findExact? p.key = some r → r.accepting = false ∧ r.owner = q.owner) :
    Flow p (steps ++ [u]) t := by
  have own : q.key = p.key := (mem_of_findExact? found).2
  have idle := (h.free q found).1 accepting
  have passed : u.passes? p.key = none := by
    rw [passes?_of_agenda ha, part?_eq_none (by simp [free])]
  have flown : (steps ++ [u]).filterMap (·.passes? p.key) = steps.filterMap (·.passes? p.key) := by
    rw [filterMap_concat, passed, Option.toList_none, List.append_nil]
  rw [idle] at occupants
  refine ⟨?_, ?_, ?_, ?_, ?_, ?_⟩
  · have order := h.order
    rw [underway_eq, idle] at order
    rw [flown, filterMap_concat, taken, underway_eq, occupants, ← order]
    simp [Task.part?, accepting, own]
  · rw [occupants]
    exact Nat.le_refl 1
  · intro r hr
    rw [(entry r hr).1, occupants]
    simp
  · intro r hr
    rw [(entry r hr).2, flown]
    exact h.given q found
  · intro r reply' hr
    rw [occupants, List.mem_singleton] at hr
    cases hr
    rw [h.given q found, Owner.isOperation_collectAll]
  · intro client
    rw [parts, flown]
    exact h.told client

/-- A request whose client is told of a part is still busy, but nothing is underway. -/
theorem Flow.tell (occupant : task.occupant? = some p.key) (passed : u.passes? p.key = some reply)
    (client : p.owner.isOperation = false) (occupants : t.occupants p.key = [.resume p.key])
    (parts : t.parts p.key = u.parts p.key ++ [reply]) (ledger : t.ledger = u.ledger) :
    Flow p (steps ++ [u]) t := by
  refine ⟨?_, ?_, ?_, ?_, ?_, ?_⟩
  · rw [(h.only ha occupant).2, underway_eq, occupants]
    exact List.append_nil _
  · rw [occupants]
    exact Nat.le_refl 1
  · intro r hr
    rw [ledger] at hr
    have taking := h.free r hr
    rw [occupants_of_occupant ha occupant] at taking
    rw [occupants]
    simpa using taking
  · intro r hr
    rw [ledger] at hr
    rw [h.given r hr, filterMap_concat, passed, Option.toList_some, Owner.collectAll_append]
    exact (Owner.collect_of_client (by rw [Owner.isOperation_collectAll, client]) reply).symm
  · intro r reply' hr
    rw [occupants, List.mem_singleton] at hr
    cases hr
  · intro client
    rw [parts, h.told client, filterMap_concat, passed, Option.toList_some]

/-- A request that is busy no longer takes parts again. -/
theorem Flow.free_again (occupant : task.occupant? = some p.key)
    (occupants : t.occupants p.key = [])
    (parts : p.owner.isOperation = false →
      t.parts p.key = u.parts p.key ++ (u.passes? p.key).toList)
    (entry : ∀ r, t.ledger.findExact? p.key = some r → r.accepting ∧
      ∃ q, u.ledger.findExact? p.key = some q ∧
        r.owner = q.owner.collectAll (u.passes? p.key).toList) :
    Flow p (steps ++ [u]) t := by
  refine ⟨?_, ?_, ?_, ?_, ?_, ?_⟩
  · rw [(h.only ha occupant).2, underway_eq, occupants]
    exact List.append_nil _
  · rw [occupants]
    exact Nat.zero_le 1
  · intro r hr
    rw [(entry r hr).1, occupants]
    simp
  · intro r hr
    obtain ⟨-, q, hq, owner⟩ := entry r hr
    rw [owner, h.given q hq, filterMap_concat, Owner.collectAll_append]
  · intro r reply' hr
    rw [occupants] at hr
    cases hr
  · intro client
    rw [parts client, h.told client, filterMap_concat]

end step

/-- A step goes on with the flow. -/
theorem Flow.step (h : Flow p steps u) (sane : u.Sane)
    (known : p.key.serial < u.ledger.nextSerial) (step : u.step = some t) :
    Flow p (steps ++ [u]) t := by
  obtain ⟨task, rest, ha, deed⟩ := sane.exists_deed step
  have passed : u.passes? p.key = task.part? p.key := passes?_of_agenda ha
  cases deed.partStep sane ha known with
  | aloof free untaken occupants parts entry =>
    rw [← occupants_of_free ha free] at occupants
    exact h.aloof ha free untaken occupants parts entry
  | take free taken found accepting occupants parts _ entry =>
    rw [← occupants_of_free ha (by simp [free])] at occupants
    exact h.take ha free taken found accepting occupants parts entry
  | @tell q reply own named accepting client occupants parts ledger =>
    subst named
    have occupant : (Task.pass q reply).occupant? = some p.key := by
      rw [Task.occupant?, if_pos accepting, own]
    rw [(h.only ha occupant).1] at occupants
    rw [h.bound q reply (occupants_of_occupant ha occupant ▸ List.mem_cons_self)] at client
    exact h.tell ha occupant (passed.trans (if_pos ⟨accepting, own⟩)) client occupants parts ledger
  | @collect q reply own named accepting operation occupants entry =>
    subst named
    have occupant : (Task.pass q reply).occupant? = some p.key := by
      rw [Task.occupant?, if_pos accepting, own]
    rw [h.bound q reply (occupants_of_occupant ha occupant ▸ List.mem_cons_self)] at operation
    rw [show (Task.pass q reply).part? p.key = some reply from if_pos ⟨accepting, own⟩] at passed
    refine h.free_again ha occupant (occupants.trans (h.only ha occupant).1) ?_ ?_
    · intro client
      rw [operation] at client
      cases client
    · rw [passed]
      exact entry
  | resume named occupants parts entry =>
    subst named
    rw [show (Task.resume p.key).part? p.key = none from rfl] at passed
    refine h.free_again ha rfl (occupants.trans (h.only ha rfl).1) ?_ ?_
    · intro _
      rw [passed, parts]
      exact (List.append_nil _).symm
    · rw [passed]
      exact entry

/-- A call leaves the flow as it is, and so does the counter of the id pool. -/
theorem Flow.call (h : Flow p steps u) (call : Call) (self : RequestId) :
    Flow p steps (u.push [.issue call self]) := by
  have occupants : (u.push [.issue call self]).occupants p.key = u.occupants p.key :=
    occupants_append rfl (by simp [Task.occupant?])
  refine ⟨?_, by rw [occupants]; exact h.alone, ?_, h.given, ?_, h.told⟩
  · rw [underway_eq, occupants, ← underway_eq]
    exact h.order
  · rw [occupants]
    exact h.free
  · rw [occupants]
    exact h.bound

/-- How the parts of the reply to a request flow, from its registration on. -/
theorem Course.flow (start : Start s₀) (reached : Reaches s₀ v) (born : v.Bears w task p)
    (streams : task.streams) (course : Course w steps u) : Flow p steps u := by
  have sane := reached.sane start.sane
  have toW : Reaches s₀ w := reached.tail born.next
  have known : p.key.serial < w.ledger.nextSerial :=
    ((toW.fate start.sane (start.fate p.key)).of_mem
      (mem_of_trace (congrArg Trace.outstanding born.after)).1).1
  induction course with
  | start => exact .start born sane (toW.sane start.sane) (reached.heard start) streams
  | @work steps t u course step fair ih =>
    have later := course.reaches
    have known' := Nat.lt_of_lt_of_le known (later.nextSerial_le (toW.sane start.sane))
    exact ih.step ((toW.trans later).sane start.sane) known' step
  | call _ call self ih => exact ih.call call self
  | rewind _ n ih => exact ⟨ih.order, ih.alone, ih.free, ih.given, ih.bound, ih.told⟩

/-! ## After the end -/

/-- Along a course that starts with a request outstanding and comes to an invocation of its
callback, one of the steps ends it. -/
theorem Course.exists_ends (start : Start s₀) (reached : Reaches s₀ s) (course : Course s steps u)
    (created : (s.ledger.findExact? key).isSome) (paid : u.callbacks key ≠ []) :
    ∃ x ∈ steps, ∃ y q ending, x.Ends y q ending ∧ q.key = key := by
  obtain ⟨p, hp⟩ := Option.isSome_iff_exists.1 created
  obtain ⟨mem, rfl⟩ := mem_of_findExact? hp
  obtain ⟨known, entry⟩ := (reached.fate start.sane (start.fate p.key)).of_mem mem
  rw [callbacks_eq] at paid
  rcases course.life (reached.sane start.sane) known entry with ⟨q, -, entry⟩ |
    ⟨before, x, after, y, q, ending, rfl, -, ends, -, same, -⟩ | ⟨-, -, nothing⟩
  · rw [entry] at paid
    exact (paid rfl).elim
  · exact ⟨x, by simp, y, q, ending, ends, same.key⟩
  · rw [nothing] at paid
    exact (paid rfl).elim

/-- A request that takes a part stays outstanding. -/
theorem stays_of_takes (sane : u.Sane) (fate : u.Fate key) (step : u.step = some t)
    (taken : u.takes? key = some reply) : (t.ledger.findExact? key).isSome := by
  obtain ⟨task, rest, ha, deed⟩ := sane.exists_deed step
  have known : key.serial < u.ledger.nextSerial := by
    rw [takes?, Option.ite_none_right_eq_some, Option.any_eq_true] at taken
    obtain ⟨⟨p, hp, -⟩, -⟩ := taken
    obtain ⟨mem, rfl⟩ := mem_of_findExact? hp
    exact (fate.of_mem mem).1
  have other : task.occupant? ≠ some key := by
    intro occupant
    rw [takes?_of_occupant ha occupant] at taken
    cases taken
  cases deed.partStep sane ha known with
  | aloof _ untaken =>
    rw [untaken] at taken
    cases taken
  | take _ _ _ _ _ _ stays => exact stays
  | tell own named accepting | collect own named accepting =>
    subst named
    exact (other (by rw [Task.occupant?, if_pos accepting, own])).elim
  | resume named => exact (other (named ▸ rfl)).elim

theorem Flow.length_underway_le (h : Flow p steps u) : (u.underway p.key).length ≤ 1 := by
  rw [underway_eq]
  exact Nat.le_trans (List.length_filterMap_le _ _) h.alone

/-- A request that is not busy takes whatever is accepted for it. -/
theorem Flow.takes?_of_idle (h : Flow p steps x) (idle : x.busy p.key = false) :
    x.takes? p.key = x.accepts? p.key := by
  rw [takes?]
  cases hf : x.ledger.findExact? p.key with
  | none =>
    rw [accepts?, delivery?, hf]
    cases x.agenda <;> rfl
  | some q =>
    have accepting := (h.free q hf).2 (busy_eq_false_iff.1 idle)
    rw [Option.any_some, if_pos accepting]

/-- A part that is passed on is the last that was taken before. -/
theorem Flow.exists_take (h : Flow p before x) (passes : x.passes? p.key = some reply) :
    ∃ first y mid, before = first ++ y :: mid ∧ y.takes? p.key = some reply ∧
      mid.filterMap (·.takes? p.key) = [] := by
  have order := h.order
  have head : x.underway p.key = [reply] := by
    have one := h.length_underway_le
    rw [passes?] at passes
    cases ha : x.agenda with
    | nil =>
      rw [ha] at passes
      cases passes
    | cons task rest =>
      rw [ha, List.head?_cons, Option.bind_some] at passes
      rw [underway, ha, List.filterMap_cons, passes] at one ⊢
      have none : rest.filterMap (·.part? p.key) = [] := by simpa using one
      rw [none]
  rw [head] at order
  obtain ⟨first, last, rfl, -, taken⟩ := List.filterMap_eq_append_iff.1 order.symm
  obtain ⟨skipped, y, mid, rfl, -, hy, none⟩ := List.filterMap_eq_cons_iff.1 taken
  exact ⟨first ++ skipped, y, mid, by simp, hy, none⟩

/-! ## The parts of a reply, all in all -/

/-- What becomes of the parts that are accepted for a request whose reply comes in parts. -/
structure PassedInOrder (p : Pending) (steps : List State) (u : State) : Prop where
  /-- Each part that is taken is passed on once, in the order in which they were taken; the
  last one may still be underway. -/
  order : steps.filterMap (·.passes? p.key) ++ u.underway p.key =
    steps.filterMap (·.takes? p.key)
  last : (u.underway p.key).length ≤ 1
  /-- When nothing is under way, all have been passed on. -/
  all : u.agenda = [] → steps.filterMap (·.passes? p.key) = steps.filterMap (·.takes? p.key)
  /-- Passing a part on is to invoke the callback of a client with it. -/
  told : p.owner.isOperation = false → u.parts p.key = steps.filterMap (·.passes? p.key)
  /-- A part that is accepted is taken, unless the request is busy with another one: then it
  is lost. -/
  taken : ∀ x ∈ steps, ∀ reply, x.accepts? p.key = some reply →
    (x.takes? p.key = some reply ↔ x.busy p.key = false)
  /-- As long as it is outstanding, the request takes parts whenever it is not busy. -/
  ready : ∀ q, u.ledger.findExact? p.key = some q → (q.accepting ↔ u.busy p.key = false)
  /-- A part is passed on after the request's callback was invoked only if the request ended
  after the part was taken. -/
  late : ∀ before x after reply, steps = before ++ x :: after → x.passes? p.key = some reply →
    x.callbacks p.key ≠ [] → ∃ first y mid, before = first ++ y :: mid ∧
      y.takes? p.key = some reply ∧ mid.filterMap (·.takes? p.key) = [] ∧
      ∃ z ∈ mid, ∃ z' q ending, z.Ends z' q ending ∧ q.key = p.key

/-- For every run and every request that is registered in it to take its reply in parts,
whatever callbacks and observers call: the parts that are taken are passed on once and in
order, and the request keeps taking parts.  Only a part that comes while the request is busy
with another one is lost, and only one during which the request ends comes late. -/
theorem parts_passed_in_order (start : Start s₀) (reached : Reaches s₀ v)
    (born : v.Bears w task p) (streams : task.streams) (course : Course w steps u) :
    PassedInOrder p steps u := by
  have toW : Reaches s₀ w := reached.tail born.next
  have flow : ∀ {steps u}, Course w steps u → Flow p steps u :=
    fun course => course.flow start reached born streams
  refine ⟨(flow course).order, (flow course).length_underway_le, ?_, (flow course).told, ?_, ?_, ?_⟩
  · intro idle
    have order := (flow course).order
    rw [underway, idle] at order
    simpa using order
  · intro x hx reply accepted
    obtain ⟨before, after, rfl⟩ := List.append_of_mem hx
    obtain ⟨y, first, -⟩ := course.split
    constructor
    · intro taken
      rw [takes?, Option.ite_none_right_eq_some, Option.any_eq_true] at taken
      obtain ⟨⟨q, hq, accepting⟩, -⟩ := taken
      exact busy_eq_false_iff.2 (((flow first).free q hq).1 accepting)
    · intro idle
      rw [(flow first).takes?_of_idle idle, accepted]
  · intro q hq
    rw [busy_eq_false_iff]
    exact (flow course).free q hq
  · rintro before x after reply rfl passes paid
    obtain ⟨-, toX, -⟩ := course.split
    obtain ⟨first, y, mid, rfl, taken, none⟩ := (flow toX).exists_take passes
    obtain ⟨y', toY, stepy, fair, fromY⟩ := toX.split
    have reachedY : Reaches s₀ y := toW.trans toY.reaches
    have stays := stays_of_takes (reachedY.sane start.sane)
      (reachedY.fate start.sane (start.fate _)) stepy taken
    exact ⟨first, y, mid, rfl, taken, none,
      fromY.exists_ends start (reachedY.tail (.work stepy fair)) stays paid⟩

/-- A request is given two parts, one after the other: both are passed on. -/
theorem parts_passed_in_order_of_two :
    ∃ (v w : State) (p : Pending) (steps : List State) (u : State),
      v.Bears w (.issue (.create .readFile none true none [] [] []) ⟨0⟩) p ∧ Course w steps u ∧
      steps.filterMap (·.takes? p.key) = [.data [1], .data [2]] ∧
      u.parts p.key = [.data [1], .data [2]] := by
  have born : State.Bears
      ((ofManager true true).push [.issue (.create .readFile none true none [] [] []) ⟨0⟩])
      ((ofManager true true).create (.create .readFile none true none [] [] []) ⟨0⟩ .readFile none
        true (.client none [] [] []))
      (.issue (.create .readFile none true none [] [] []) ⟨0⟩)
      { id := ⟨1⟩, serial := 1, kind := .readFile, timeout := none, deadline := none
        accepting := true, owner := .client none [] [] [] } :=
    ⟨.work rfl (not_trespasses rfl (by simp)), rfl, ⟨[], rfl⟩, ⟨_, rfl, .refl _⟩, rfl, rfl⟩
  have called : Reaches (ofManager true true)
      ((ofManager true true).push [.issue (.create .readFile none true none [] [] []) ⟨0⟩]) :=
    .head (.call _ _) (.refl _)
  have run : (((ofManager true true).create (.create .readFile none true none [] [] []) ⟨0⟩
      .readFile none true (.client none [] [] [])).follow?
        ([.work, .work] ++ .call (.deliver (.given ⟨1⟩) (.part (.data [1]))) ⟨0⟩ ::
          List.replicate 5 .work ++ .call (.deliver (.given ⟨1⟩) (.part (.data [2]))) ⟨0⟩ ::
          List.replicate 5 .work)).any fun u => u.agenda.isEmpty := by
    decide +kernel
  rw [Option.any_eq_true] at run
  obtain ⟨u, hu, idle⟩ := run
  have course := course_of_follow? hu
  have passed := parts_passed_in_order (.manager true true _) called born rfl course
  refine ⟨_, _, _, _, u, born, course, ?_, ?_⟩
  · decide +kernel
  · rw [passed.told rfl, passed.all (List.isEmpty_iff.1 idle)]
    decide +kernel

/-- An observer delivers a second part as it is told of the first.  It is told that the part
was accepted, but the request, which stays outstanding, is given the first part only. -/
theorem part_lost_while_busy :
    ∃ (steps : List State) (u : State) (key : RequestKey),
      Course (ofManager true true) steps u ∧ u.agenda = [] ∧
      (u.ledger.findExact? key).isSome ∧
      steps.filterMap (·.accepts? key) = [.data [1], .data [2]] ∧ u.parts key = [.data [1]] := by
  have run : ((ofManager true true).follow?
      ([.call (.observe "o" { progress := { steps := [.deliver .self (.part (.data [2]))] } }) ⟨0⟩,
        .work, .call (.create .readFile none true none [] [] []) ⟨0⟩] ++ List.replicate 4 .work ++
        .call (.deliver (.given ⟨1⟩) (.part (.data [1]))) ⟨0⟩ :: List.replicate 11 .work)).any
          fun u => u.agenda.isEmpty && (u.ledger.findExact? ⟨⟨1⟩, 1⟩).isSome &&
            u.parts ⟨⟨1⟩, 1⟩ == [.data [1]] := by
    decide +kernel
  rw [Option.any_eq_true] at run
  obtain ⟨u, hu, run⟩ := run
  rw [Bool.and_eq_true, Bool.and_eq_true, List.isEmpty_iff, beq_iff_eq] at run
  refine ⟨_, u, ⟨⟨1⟩, 1⟩, course_of_follow? hu, run.1.1, run.1.2, ?_, run.2⟩
  decide +kernel

end State

end FileRelay
