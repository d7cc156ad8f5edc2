import FileRelay.Proofs.Deed

/-!
# Parts of a reply

A part that is accepted for an outstanding request is passed on some tasks later, after the
observers have been told of it.  Until then, and as long as the request's callback is busy
with it, the request takes no other part.  This file says what a step may mean for the parts
of one request: it has nothing to do with them, or has one taken, passes one on, or lets the
request take parts again.
-/

namespace FileRelay

/-- The part of a reply that a delivery brings. -/
def Delivery.part? : Delivery → Option Reply
  | .part reply => some reply
  | _ => none

/-- The part that doing a task passes on to a request. -/
def Task.part? (key : RequestKey) : Task → Option Reply
  | .pass p reply => if p.accepting ∧ p.key = key then some reply else none
  | _ => none

/-- The part that a client's callback for a request was given. -/
def Event.part? (key : RequestKey) : Event → Option Reply
  | .part request _ reply => if request = key then some reply else none
  | _ => none

/-- The one who waits, once a part has been passed on. -/
def Owner.collect (part : Reply) : Owner → Owner
  | .client tag onSuccess onError onPart => .client tag onSuccess onError onPart
  | .operation expects tag followUp => .operation (expects.collect part) tag followUp

/-- The one who waits, once some parts have been passed on. -/
def Owner.collectAll (o : Owner) (parts : List Reply) : Owner :=
  parts.foldl (fun o part => o.collect part) o

theorem Owner.isOperation_collect (o : Owner) (part : Reply) :
    (o.collect part).isOperation = o.isOperation := by
  cases o <;> rfl

theorem Owner.collect_of_client {o : Owner} (client : o.isOperation = false) (part : Reply) :
    o.collect part = o := by
  cases o with
  | client => rfl
  | operation => cases client

theorem Owner.collectAll_append (o : Owner) (parts more : List Reply) :
    o.collectAll (parts ++ more) = (o.collectAll parts).collectAll more := by
  rw [collectAll, List.foldl_append, collectAll, collectAll]

theorem Owner.isOperation_collectAll (o : Owner) (parts : List Reply) :
    (o.collectAll parts).isOperation = o.isOperation := by
  induction parts generalizing o with
  | nil => rfl
  | cons part parts ih =>
    show ((o.collect part).collectAll parts).isOperation = o.isOperation
    rw [ih, isOperation_collect]

namespace State

variable {b s t : State} {task x : Task} {rest : List Task} {key : RequestKey} {p q : Pending}
  {reply : Reply}

/-- The tasks that keep a request busy with a part of its reply. -/
def occupants (s : State) (key : RequestKey) : List Task :=
  s.agenda.filter (·.occupant? = some key)

/-- Whether a request is busy with a part of its reply: one is to be passed on to it, or its
callback has not returned from the last one. -/
def busy (s : State) (key : RequestKey) : Bool := s.agenda.any (·.occupant? = some key)

/-- The parts that are still to be passed on to a request. -/
def underway (s : State) (key : RequestKey) : List Reply := s.agenda.filterMap (·.part? key)

/-- The parts that a client's callback for a request has been given so far, in order. -/
def parts (s : State) (key : RequestKey) : List Reply :=
  s.history.reverse.filterMap (·.part? key)

/-- What the next step delivers to an outstanding request, if it does. -/
def delivery? (s : State) (key : RequestKey) : Option Delivery :=
  match s.agenda, s.ledger.findExact? key with
  | task :: _, some p => task.delivery? s p.id
  | _, _ => none

/-- The part that the next step accepts for an outstanding request: whoever delivers it is
told so. -/
def accepts? (s : State) (key : RequestKey) : Option Reply :=
  (s.delivery? key).bind Delivery.part?

/-- The part that the next step not only accepts, but has taken by the request. -/
def takes? (s : State) (key : RequestKey) : Option Reply :=
  if (s.ledger.findExact? key).any (·.accepting) then s.accepts? key else none

/-- The part that the next step passes on to a request. -/
def passes? (s : State) (key : RequestKey) : Option Reply :=
  s.agenda.head?.bind (·.part? key)

/-! ## Small facts -/

theorem busy_eq_false_iff : s.busy key = false ↔ s.occupants key = [] := by
  rw [busy, occupants, List.any_eq_false, List.filter_eq_nil_iff]

theorem occupant?_of_part? (h : x.part? key = some reply) : x.occupant? = some key := by
  unfold Task.part? at h
  split at h
  · rw [Option.ite_none_right_eq_some] at h
    rw [Task.occupant?, if_pos h.1.1, h.1.2]
  · cases h

theorem underway_eq (s : State) (key : RequestKey) :
    s.underway key = (s.occupants key).filterMap (·.part? key) := by
  rw [underway, occupants, List.filterMap_filter]
  apply List.filterMap_congr
  intro x _
  cases h : x.part? key with
  | none => simp
  | some reply => simp [occupant?_of_part? h]

theorem occupant?_of_calm (h : x.calm) : x.occupant? = none := by
  cases x <;> first | rfl | cases h

theorem occupant?_of_sets (h : task.Sets x) : x.occupant? = none := by
  cases h with
  | calm h => exact occupant?_of_calm h
  | announce | tell | closeFiles => rfl

theorem part?_of_calm {event : Event} (h : event.calm) : event.part? key = none := by
  cases event <;> first | rfl | cases h

theorem part?_of_records {event : Event} (h : task.Records event) : event.part? key = none := by
  cases h with
  | calm h => exact part?_of_calm h
  | handedOver | cancelled => rfl

/-- A task that delivers something keeps no request busy. -/
theorem occupant?_of_delivery? {id : RequestId} {delivery : Delivery}
    (h : task.delivery? s id = some delivery) : task.occupant? = none := by
  cases task <;> first | rfl | cases h

theorem occupants_append {tasks : List Task} (agenda : t.agenda = tasks ++ s.agenda)
    (h : ∀ x ∈ tasks, x.occupant? ≠ some key) : t.occupants key = s.occupants key := by
  have none : tasks.filter (·.occupant? = some key) = [] := by
    rw [List.filter_eq_nil_iff]
    intro x hx
    simpa using h x hx
  rw [occupants, occupants, agenda, List.filter_append, none, List.nil_append]

theorem parts_append {events : List Event} (history : t.history = events ++ s.history)
    (h : ∀ event ∈ events, event.part? key = none) : t.parts key = s.parts key := by
  have none : events.reverse.filterMap (·.part? key) = [] := by
    rw [List.filterMap_eq_nil_iff]
    intro event he
    exact h event (List.mem_reverse.1 he)
  rw [parts, parts, history, List.reverse_append, List.filterMap_append, none, List.append_nil]

theorem Silent.parts (h : s.Silent t) : t.parts key = s.parts key := by
  obtain ⟨events, history, calm⟩ := h
  exact parts_append history fun event he => part?_of_calm (calm event he)

/-- An outstanding request is found by its id as well. -/
theorem Accounted.find?_of_findExact? (hs : s.Accounted)
    (h : s.ledger.findExact? key = some p) : s.ledger.find? p.id = some p := by
  obtain ⟨mem, -⟩ := mem_of_findExact? h
  cases hf : s.ledger.find? p.id with
  | none =>
    have other := List.find?_eq_none.1 hf p mem
    simp at other
  | some q =>
    have hid : q.id = p.id := by simpa using List.find?_some hf
    rw [hs.eq_of_id mem (List.mem_of_find?_eq_some hf) hid]

theorem findExact?_modify (ledger : Ledger) {f : Pending → Pending}
    (same : ∀ p : Pending, (f p).key = p.key) :
    (ledger.modify key f).findExact? key = (ledger.findExact? key).map f := by
  rw [Ledger.findExact?, Ledger.findExact?, Ledger.modify, List.find?_map]
  have test : (fun p : Pending => decide (p.key = key)) ∘
      (fun p => if p.key = key then f p else p) = fun p => decide (p.key = key) := by
    funext p
    by_cases h : p.key = key
    · simp [h, same]
    · simp [h]
  rw [test]
  cases h : ledger.entries.find? fun p => p.key = key with
  | none => rfl
  | some p =>
    have own : p.key = key := by simpa using List.find?_some h
    simp [own]

theorem exists_of_modify {ledger : Ledger} {f : Pending → Pending}
    (h : (ledger.modify key f).findExact? key = some q)
    (same : ∀ p : Pending, (f p).key = p.key) : ∃ p, ledger.findExact? key = some p ∧ f p = q := by
  rwa [findExact?_modify ledger same, Option.map_eq_some_iff] at h

theorem find_of_modify {ledger : Ledger} {other : RequestKey} {f : Pending → Pending}
    (h : (ledger.modify other f).findExact? key = some q)
    (same : ∀ p : Pending, (f p).key = p.key) (ne : other ≠ key) :
    ledger.findExact? key = some q := by
  have test : (fun p : Pending => decide (p.key = key)) ∘
      (fun p => if p.key = other then f p else p) = fun p => decide (p.key = key) := by
    funext p
    by_cases ho : p.key = other
    · simp [ho, same]
    · simp [ho]
  rw [Ledger.findExact?, Ledger.modify, List.find?_map, test, Option.map_eq_some_iff] at h
  obtain ⟨p, hp, rfl⟩ := h
  have own : p.key = key := by simpa using List.find?_some hp
  rw [if_neg fun ho => ne (ho.symm.trans own)]
  exact hp

theorem delivery?_of_agenda (ha : b.agenda = task :: rest)
    (found : b.ledger.findExact? key = some p) : b.delivery? key = task.delivery? b p.id := by
  simp only [delivery?, ha, found]

theorem occupants_of_free (ha : b.agenda = task :: rest) (free : task.occupant? ≠ some key) :
    b.occupants key = ({ b with agenda := rest } : State).occupants key := by
  rw [occupants, ha, List.filter_cons_of_neg (by simpa using free)]
  rfl

theorem occupants_of_occupant (ha : b.agenda = task :: rest) (h : task.occupant? = some key) :
    b.occupants key = task :: ({ b with agenda := rest } : State).occupants key := by
  rw [occupants, ha, List.filter_cons_of_pos (by simpa using h)]
  rfl

theorem passes?_of_agenda (ha : b.agenda = task :: rest) : b.passes? key = task.part? key := by
  rw [passes?, ha, List.head?_cons, Option.bind_some]

theorem part?_eq_none (free : x.occupant? ≠ some key) : x.part? key = none := by
  cases h : x.part? key with
  | none => rfl
  | some reply => exact (free (occupant?_of_part? h)).elim

theorem takes?_eq_none (ha : b.agenda = task :: rest)
    (h : ∀ p reply, b.ledger.findExact? key = some p → p.accepting →
      task.delivery? b p.id ≠ some (.part reply)) : b.takes? key = none := by
  rw [takes?]
  split
  · rename_i accepting
    rw [Option.any_eq_true] at accepting
    obtain ⟨p, found, accepting⟩ := accepting
    rw [accepts?, delivery?_of_agenda ha found]
    cases hd : task.delivery? b p.id with
    | none => rfl
    | some delivery =>
      cases delivery with
      | part reply => exact (h p reply found accepting hd).elim
      | success | error => rfl
  · rfl

/-! ## A step -/

/-- What a step, which is in a state `b` and does a task, means for the parts of the reply to
a request. -/
inductive PartStep (b : State) (task : Task) (key : RequestKey) (s t : State) : Prop
  /-- It has nothing to do with them. -/
  | aloof (free : task.occupant? ≠ some key) (untaken : b.takes? key = none)
      (occupants : t.occupants key = s.occupants key) (parts : t.parts key = s.parts key)
      (entry : ∀ q, t.ledger.findExact? key = some q →
        ∃ p, s.ledger.findExact? key = some p ∧ p.Alike q)
  /-- It has a part taken. -/
  | take {p : Pending} {reply : Reply} (free : task.occupant? = none)
      (taken : b.takes? key = some reply) (found : s.ledger.findExact? key = some p)
      (accepting : p.accepting)
      (occupants : t.occupants key = .pass p reply :: s.occupants key)
      (parts : t.parts key = s.parts key) (stays : (t.ledger.findExact? key).isSome)
      (entry : ∀ q, t.ledger.findExact? key = some q → q.accepting = false ∧ q.owner = p.owner)
  /-- It passes a part on to the callback of a client. -/
  | tell {p : Pending} {reply : Reply} (own : p.key = key) (named : task = .pass p reply)
      (accepting : p.accepting) (client : p.owner.isOperation = false)
      (occupants : t.occupants key = .resume key :: s.occupants key)
      (parts : t.parts key = s.parts key ++ [reply])
      (ledger : t.ledger = s.ledger)
  /-- It adds a part to what an operation has been given so far. -/
  | collect {p : Pending} {reply : Reply} (own : p.key = key) (named : task = .pass p reply)
      (accepting : p.accepting) (operation : p.owner.isOperation)
      (occupants : t.occupants key = s.occupants key)
      (entry : ∀ q, t.ledger.findExact? key = some q → q.accepting ∧
        ∃ p, s.ledger.findExact? key = some p ∧ q.owner = p.owner.collect reply)
  /-- It lets the request take parts again. -/
  | resume (named : task = .resume key) (occupants : t.occupants key = s.occupants key)
      (parts : t.parts key = s.parts key)
      (entry : ∀ q, t.ledger.findExact? key = some q → q.accepting ∧
        ∃ p, s.ledger.findExact? key = some p ∧ q.owner = p.owner)

/-- Tasks that keep no request busy, with nothing recorded of a part. -/
theorem Quiet.partStep (h : Quiet task s t) (hs : s.Accounted) (free : task.occupant? = none)
    (untaken : b.takes? key = none) : PartStep b task key s t := by
  obtain ⟨tasks, agenda, sets⟩ := h.agenda
  obtain ⟨events, history, records⟩ := h.history
  refine .aloof (by simp [free]) untaken
    (occupants_append agenda fun x hx => by simp [occupant?_of_sets (sets x hx)])
    (parts_append history fun event he => part?_of_records (records event he)) ?_
  intro q hq
  obtain ⟨mem, own⟩ := mem_of_findExact? hq
  obtain ⟨p, hp, alike⟩ := h.entries q mem
  have found := findExact?_of_mem hs hp
  rw [← alike.key, own] at found
  exact ⟨p, found, alike⟩

/-- A task that has a request registered delivers nothing. -/
theorem delivery?_of_owner? {owner : Owner} {id : RequestId} (h : task.owner? = some owner) :
    task.occupant? = none ∧ task.delivery? s id = none := by
  cases task with
  | issue call self => cases call <;> first | exact ⟨rfl, rfl⟩ | cases h
  | _ => cases h

/-- A new request is another one. -/
theorem Enters.partStep {tasks : List Task} (h : Enters task p s t) (hs : s.Accounted)
    (known : key.serial < s.ledger.nextSerial) (ha : b.agenda = task :: rest)
    (agenda : t.agenda = tasks ++ s.agenda) (quiet : ∀ x ∈ tasks, x.occupant? ≠ some key) :
    PartStep b task key s t := by
  have nothing : ∀ id, task.occupant? = none ∧ task.delivery? b id = none :=
    fun id => delivery?_of_owner? h.owner
  refine .aloof (by simp [(nothing ⟨0⟩).1]) (takes?_eq_none ha (by simp [(nothing _).2]))
    (occupants_append agenda quiet) h.silent.parts ?_
  intro q hq
  obtain ⟨mem, own⟩ := mem_of_findExact? hq
  rw [h.ledger] at mem
  rcases List.mem_append.1 mem with mem | mem
  · exact ⟨q, own ▸ findExact?_of_mem hs (List.mem_filter.1 mem).1, .refl q⟩
  · have serial := h.serial
    rw [← List.mem_singleton.1 mem] at serial
    rw [← own] at known
    change q.serial < _ at known
    omega

theorem pass_of_client (s : State) (reply : Reply) {tag : Option String}
    {onSuccess onError onPart : List Call} (accepting : p.accepting)
    (owner : p.owner = .client tag onSuccess onError onPart) :
    s.pass p reply = ((s.note (.partTaken p.id)).emit (.part p.key tag reply)).push
      (Task.script onPart p.id ++ [.resume p.key]) := by
  rw [State.pass, if_pos accepting, owner]

theorem pass_of_operation (s : State) (reply : Reply) (accepting : p.accepting)
    (operation : p.owner.isOperation) :
    ∃ f : Pending → Pending, (∀ q, (f q).key = q.key ∧ (f q).accepting ∧
        (f q).owner = q.owner.collect reply) ∧
      s.pass p reply = { s.note (.partTaken p.id) with ledger := s.ledger.modify p.key f } := by
  rw [State.pass, if_pos accepting]
  dsimp only
  split
  · rename_i owner
    rw [owner] at operation
    cases operation
  · refine ⟨_, ?_, rfl⟩
    intro q
    cases hq : q.owner with
    | client => exact ⟨rfl, rfl, rfl⟩
    | operation => exact ⟨rfl, rfl, rfl⟩

theorem filter_script (steps : List Call) (self : RequestId) :
    (Task.script steps self).filter (·.occupant? = some key) = [] := by
  rw [List.filter_eq_nil_iff]
  intro x hx
  obtain ⟨call, -, rfl⟩ := List.mem_map.1 hx
  simp [Task.occupant?]

theorem pass_partStep {s : State} (ha : b.agenda = .pass p reply :: rest)
    (accepting : p.accepting) : PartStep b (.pass p reply) key s (s.pass p reply) := by
  have untaken : b.takes? key = none := takes?_eq_none ha (by simp [Task.delivery?])
  have occupant : (Task.pass p reply).occupant? = some p.key := if_pos accepting
  cases operation : p.owner.isOperation with
  | false =>
    cases owner : p.owner with
    | client tag onSuccess onError onPart =>
      rw [pass_of_client s reply accepting owner]
      by_cases own : p.key = key
      · refine .tell own rfl accepting operation ?_ ?_ rfl
        · rw [occupants, State.push, List.filter_append, List.filter_append, filter_script]
          simp [Task.occupant?, own, occupants, emit, note]
        · simp [State.push, emit, note, parts, Event.part?, own]
      · refine .aloof (by simpa [occupant] using own) untaken ?_ ?_ ?_
        · rw [occupants, State.push, List.filter_append, List.filter_append, filter_script]
          simp [Task.occupant?, own, occupants, emit, note]
        · simp [State.push, emit, note, parts, Event.part?, own]
        · exact fun q hq => ⟨q, hq, .refl q⟩
    | operation =>
      rw [owner] at operation
      cases operation
  | true =>
    obtain ⟨f, hf, passed⟩ := pass_of_operation s reply accepting operation
    rw [passed]
    by_cases own : p.key = key
    · refine .collect own rfl accepting operation rfl ?_
      intro q hq
      rw [own] at hq
      obtain ⟨r, hr, rfl⟩ := exists_of_modify hq fun q => (hf q).1
      exact ⟨(hf r).2.1, r, hr, (hf r).2.2⟩
    · refine .aloof (by simpa [occupant] using own) untaken rfl
        (Silent.parts ⟨[.noticed (.partTaken p.id)], rfl, by simp [Event.calm]⟩) ?_
      intro q hq
      exact ⟨q, find_of_modify hq (fun q => (hf q).1) own, .refl q⟩

theorem resume_partStep {s : State} {other : RequestKey} (ha : b.agenda = .resume other :: rest) :
    PartStep b (.resume other) key s (s.resume other) := by
  have untaken : b.takes? key = none := takes?_eq_none ha (by simp [Task.delivery?])
  by_cases own : other = key
  · subst own
    refine .resume rfl rfl rfl ?_
    intro q hq
    obtain ⟨r, hr, rfl⟩ := exists_of_modify hq fun _ => rfl
    exact ⟨rfl, r, hr, rfl⟩
  · refine .aloof (by simpa [Task.occupant?] using own) untaken rfl rfl ?_
    intro q hq
    exact ⟨q, find_of_modify hq (fun _ => rfl) own, .refl q⟩

/-- A task delivers to one request at most. -/
theorem eq_of_delivery? {id other : RequestId} {delivery delivery' : Delivery}
    (h : task.delivery? s id = some delivery) (k : task.delivery? s other = some delivery') :
    id = other := by
  unfold Task.delivery? at h k
  split at h
  · rw [Option.ite_none_right_eq_some] at h k
    exact h.1.2.symm.trans k.1.2
  · dsimp only at k
    split at h
    · rename_i hc
      rw [hc] at k
      rw [Option.ite_none_right_eq_some] at h k
      exact h.1.symm.trans k.1
    · cases h
  · cases h

/-- What is put on the agenda when a part is accepted keeps the request busy, if it takes it. -/
theorem occupants_of_pass {front back : List Task}
    (agenda : t.agenda = front ++ .pass p reply :: (back ++ s.agenda))
    (front_calm : ∀ x ∈ front, x.calm) (back_calm : ∀ x ∈ back, x.calm) :
    t.occupants key = [Task.pass p reply].filter (·.occupant? = some key) ++ s.occupants key := by
  have none : ∀ l : List Task, (∀ x ∈ l, x.calm) → l.filter (·.occupant? = some key) = [] := by
    intro l hl
    rw [List.filter_eq_nil_iff]
    intro x hx
    simp [occupant?_of_calm (hl x hx)]
  rw [State.occupants, State.occupants, agenda, ← List.singleton_append, List.filter_append,
    List.filter_append, List.filter_append, none front front_calm, none back back_calm]
  rfl

/-- A part is accepted for one request: whether it is taken depends on whether that one is
busy, and no other is concerned. -/
theorem take_partStep {front back : List Task} {deadline : Option Nat} (hs : s.Accounted)
    (ha : b.agenda = task :: rest) (hb : s = { b with agenda := rest })
    (found : s.ledger.find? p.id = some p) (delivery : task.delivery? s p.id = some (.part reply))
    (agenda : t.agenda = front ++ .pass p reply :: (back ++ s.agenda))
    (front_calm : ∀ x ∈ front, x.calm) (back_calm : ∀ x ∈ back, x.calm) (silent : s.Silent t)
    (ledger : t.ledger = s.ledger.modify p.key fun q =>
      { q with deadline := deadline <|> q.deadline, accepting := false }) :
    PartStep b task key s t := by
  have free : task.occupant? = none := occupant?_of_delivery? delivery
  have occupants : t.occupants key =
      [Task.pass p reply].filter (·.occupant? = some key) ++ s.occupants key :=
    occupants_of_pass agenda front_calm back_calm
  have exact_p := findExact?_of_mem hs (List.mem_of_find?_eq_some found)
  subst hb
  by_cases own : p.key = key
  · subst own
    by_cases accepting : p.accepting
    · have taken : b.takes? p.key = some reply := by
        rw [takes?, show b.ledger.findExact? p.key = some p from exact_p, Option.any_some,
          if_pos accepting, accepts?, delivery?_of_agenda ha exact_p]
        exact congrArg (Option.bind · Delivery.part?) delivery
      refine .take free taken exact_p accepting ?_ silent.parts ?_ ?_
      · rw [occupants]
        simp [Task.occupant?, accepting]
      · rw [ledger, findExact?_modify, exact_p]
        · rfl
        · exact fun _ => rfl
      · intro q hq
        rw [ledger] at hq
        obtain ⟨r, hr, rfl⟩ := exists_of_modify hq fun _ => rfl
        rw [exact_p] at hr
        cases hr
        exact ⟨rfl, rfl⟩
    · refine .aloof (by simp [free]) (takes?_eq_none ha ?_) ?_ silent.parts ?_
      · intro r _ hr accepting'
        have same : some r = some p := hr.symm.trans exact_p
        cases same
        exact (accepting accepting').elim
      · rw [occupants]
        simp [Task.occupant?, accepting]
      · intro q hq
        rw [ledger] at hq
        obtain ⟨r, hr, rfl⟩ := exists_of_modify hq fun _ => rfl
        rw [exact_p] at hr
        cases hr
        exact ⟨p, exact_p, rfl, by simp [accepting], rfl⟩
  · refine .aloof (by simp [free]) (takes?_eq_none ha ?_) ?_ silent.parts ?_
    · intro r _ hr _ delivered
      have hid : r.id = p.id := eq_of_delivery? delivered delivery
      obtain ⟨mem, hk⟩ := mem_of_findExact? hr
      have same := hs.eq_of_id (List.mem_of_find?_eq_some found) mem hid
      rw [same] at hk
      exact own hk
    · rw [occupants]
      simp [Task.occupant?, own]
    · intro q hq
      rw [ledger] at hq
      exact ⟨q, find_of_modify hq (fun _ => rfl) own, .refl q⟩

/-- What doing a task means for the parts of the reply to a request. -/
theorem Deed.partStep (h : Deed { b with agenda := rest } task t) (hb : b.Sane)
    (ha : b.agenda = task :: rest) (known : key.serial < b.ledger.nextSerial) :
    PartStep b task key { b with agenda := rest } t := by
  have hs := hb.accounted.pop ha
  cases h with
  | calm free undelivered h =>
    refine h.toQuiet.partStep hs free (takes?_eq_none ha ?_)
    intro p reply found _
    exact undelivered p reply (hb.accounted.find?_of_findExact? found)
  | create client enters agenda calm =>
    exact enters.partStep hs known ha agenda fun x hx => by simp [occupant?_of_calm (calm x hx)]
  | @operate _ _ _ _ _ content p front back _ enters _ _ agenda told calm =>
    have quiet : ∀ x ∈ front ++ .handOver p.key content :: back, x.occupant? ≠ some key := by
      intro x hx
      rcases List.mem_append.1 hx with hx | hx
      · rw [told] at hx
        simp [occupant?_of_calm (Calm.calm_of_mem_tells hx fun _ => rfl)]
      · rcases List.mem_cons.1 hx with rfl | hx
        · simp [Task.occupant?]
        · simp [occupant?_of_calm (calm x hx)]
    refine enters.partStep hs known ha ?_ quiet
    rw [agenda, List.append_assoc, List.cons_append]
  | take found delivery agenda front back silent ledger =>
    obtain ⟨deadline, ledger⟩ := ledger
    exact take_partStep hs ha rfl found delivery agenda front back silent ledger
  | pass accepting => exact pass_partStep ha accepting
  | resume other => exact resume_partStep ha
  | complete p ending h =>
    exact h.partStep hs rfl (takes?_eq_none ha (by simp [Task.delivery?]))
  | closeFiles aborted h =>
    exact h.partStep hs rfl (takes?_eq_none ha (by simp [Task.delivery?]))

end State

end FileRelay
