import FileRelay.Proofs.Authority
import FileRelay.Proofs.Marks
import FileRelay.Proofs.MountIds

/-!
# What is handed over behind a close

Once the provider has been handed a close, it may forget the file, and it knows the file only by the
request that opened it.  So nothing that names this request should be handed over behind the close.
Each operation on a file is checked for that as it is called: the call of a close marks the file,
and a file that is marked cannot be used.  But the request of the operation is handed over only when
all observers have been told of it, and one of them may close the file meanwhile.  Then the close
goes first, and the request behind it, unchecked.

This file says that nothing else can go wrong, as long as each open file keeps the id of its
opener to itself.
-/

namespace FileRelay

/-- The request whose handing over a task is. -/
def Task.errand? : Task → Option RequestKey
  | .handOver key _ => some key
  | _ => none

/-- The opener of the file that a request uses or closes. -/
def Request.opener? : Request → Option RequestId
  | .closeFile opener | .readFile opener _ _ | .writeFile opener _ _ => some opener
  | _ => none

theorem Request.Allowed.exists_file {info : MountInfo} {known : OpenFile → Prop}
    {content : Request} {opener : RequestId} (h : content.Allowed info known)
    (names : content.opener? = some opener) : ∃ file, known file ∧ file.openedBy = opener := by
  cases content with
  | closeFile | readFile =>
    cases names
    obtain ⟨file, there, law⟩ := h
    exact ⟨file, there, by tauto⟩
  | writeFile =>
    cases names
    obtain ⟨-, file, there, own, -⟩ := h
    exact ⟨file, there, own⟩
  | _ => cases names

namespace State

variable {s₀ s t u v w x y : State} {task : Task} {rest rest' : List Task}
  {key close : RequestKey} {p : Pending} {content : Request} {opener : RequestId}
  {id : HandleId} {operation : Operation} {steps before between after : List State}
  {settings : MountSettings} {link : Link} {timersRun : Bool} {firstId : UInt32} {horizon : Nat}

/-! ## A request is handed over once -/

/-- The requests that are to be handed over. -/
def errands (s : State) : List RequestKey := s.agenda.filterMap Task.errand?

/-- No request is to be handed over twice, and all of them have been registered. -/
structure ErrandsApart (s : State) : Prop where
  nodup : s.errands.Nodup
  known : ∀ key ∈ s.errands, key.serial < s.ledger.nextSerial

theorem errand?_of_calm (h : task.calm) : task.errand? = none := by
  cases task with
  | handOver => cases h
  | _ => rfl

theorem errand?_of_sets {x : Task} (h : task.Sets x) : x.errand? = none := by
  cases h with
  | calm h => exact errand?_of_calm h
  | announce | tell | closeFiles => rfl

theorem errands_append {tasks : List Task} (agenda : t.agenda = tasks ++ s.agenda)
    (none : ∀ x ∈ tasks, x.errand? = none) : t.errands = s.errands := by
  rw [errands, agenda, List.filterMap_append, List.filterMap_eq_nil_iff.2 none]
  rfl

theorem Quiet.errands (h : Quiet task s t) : t.errands = s.errands := by
  obtain ⟨tasks, agenda, sets⟩ := h.agenda
  exact errands_append agenda fun x hx => errand?_of_sets (sets x hx)

/-- Only accepting an operation has another request be handed over, which is registered then. -/
theorem Deed.errands (h : Deed s task t) : t.errands = s.errands ∨
    ∃ p : Pending, p.serial = s.ledger.nextSerial ∧ t.ledger = s.ledger.insert p ∧
      t.errands = p.key :: s.errands := by
  have calm : ∀ {tasks : List Task}, (∀ x ∈ tasks, x.calm) →
      tasks.filterMap Task.errand? = [] := fun h =>
    List.filterMap_eq_nil_iff.2 fun x hx => errand?_of_calm (h x hx)
  cases h with
  | calm _ _ h => exact .inl h.toQuiet.errands
  | create _ _ agenda plain =>
    exact .inl (errands_append agenda fun x hx => errand?_of_calm (plain x hx))
  | @operate _ _ _ _ _ content p front _ _ enters _ _ agenda tells back =>
    have tells : ∀ x ∈ front, x.calm := fun x hx =>
      Calm.calm_of_mem_tells (tells ▸ hx) fun _ => rfl
    refine .inr ⟨p, enters.serial, enters.ledger, ?_⟩
    rw [State.errands, agenda, List.filterMap_append, calm tells, List.nil_append,
      List.filterMap_cons, List.filterMap_append, calm back]
    rfl
  | take _ _ agenda front back =>
    rw [State.errands, agenda, List.filterMap_append, calm front, List.nil_append,
      List.filterMap_cons, List.filterMap_append, calm back]
    exact .inl rfl
  | pass accepting =>
    obtain ⟨tasks, agenda, plain⟩ := pass_agenda s _ accepting
    refine .inl (errands_append agenda fun x hx => ?_)
    rcases plain x hx with calm | rfl
    · exact errand?_of_calm calm
    · rfl
  | resume => exact .inl rfl
  | complete _ _ h | closeFiles _ h => exact .inl h.errands

/-- What goes on in a run keeps those apart that are to be handed over.  A request that was
registered before comes to be handed over no more than it was. -/
theorem Next.errandsApart (hn : Next s t) (hs : s.Sane) (h : s.ErrandsApart) :
    t.ErrandsApart ∧ ∀ key ∈ t.errands, key.serial < s.ledger.nextSerial → key ∈ s.errands := by
  cases hn with
  | work step fair =>
    obtain ⟨task, rest, ha, deed⟩ := hs.exists_deed step
    have sub : (State.errands { s with agenda := rest }).Sublist s.errands := by
      rw [errands, errands, ha]
      exact (List.sublist_cons_self task rest).filterMap _
    have known : ∀ key ∈ State.errands { s with agenda := rest },
        key.serial < s.ledger.nextSerial := fun key hk => h.known key (sub.subset hk)
    have le := (Next.work step fair).nextSerial_le hs
    rcases deed.errands with same | ⟨p, serial, ledger, more⟩
    · refine ⟨⟨same ▸ h.nodup.sublist sub, fun key hk => ?_⟩, fun key hk _ => ?_⟩
      · exact Nat.lt_of_lt_of_le (known key (same ▸ hk)) le
      · exact sub.subset (same ▸ hk)
    · change p.serial = s.ledger.nextSerial at serial
      have next : t.ledger.nextSerial = s.ledger.nextSerial + 1 := by rw [ledger]; rfl
      refine ⟨⟨?_, fun key hk => ?_⟩, fun key hk old => ?_⟩
      · rw [more]
        refine List.nodup_cons.2 ⟨fun hp => ?_, h.nodup.sublist sub⟩
        exact Nat.ne_of_lt (known _ hp) serial
      · rw [more] at hk
        rcases List.mem_cons.1 hk with rfl | hk
        · rw [next, Pending.key, serial]
          exact Nat.lt_succ_self _
        · exact Nat.lt_of_lt_of_le (known key hk) le
      · rw [more] at hk
        rcases List.mem_cons.1 hk with rfl | hk
        · exact (Nat.ne_of_lt old serial).elim
        · exact sub.subset hk
  | call call self => exact ⟨⟨h.nodup, h.known⟩, fun key hk _ => hk⟩
  | rewind n => exact ⟨⟨h.nodup, h.known⟩, fun key hk _ => hk⟩

theorem Reaches.errandsApart (start : Start s₀) (h : Reaches s₀ s) : s.ErrandsApart := by
  refine h.invariant (P := ErrandsApart) ?_ fun _ _ hu hn apart =>
    (hn.errandsApart (hu.sane start.sane) apart).1
  cases start <;> exact ⟨List.nodup_nil, by simp [errands, ofManager, ofMount, note, emit]⟩

theorem mem_errands (mem : .handOver key content ∈ s.agenda) : key ∈ s.errands :=
  List.mem_filterMap.2 ⟨_, mem, rfl⟩

/-- A request that is not to be handed over once it was registered never is again. -/
theorem Reaches.not_mem_errands (start : Start s₀) (toS : Reaches s₀ s) (h : Reaches s u)
    (known : key.serial < s.ledger.nextSerial) (none : key ∉ s.errands) : key ∉ u.errands := by
  refine h.invariant (P := fun u => key ∉ u.errands) none fun v w hv hn none mem => ?_
  have toV := toS.trans hv
  have sane := toV.sane start.sane
  exact none ((hn.errandsApart sane (toV.errandsApart start)).2 key mem
    (Nat.lt_of_lt_of_le known (hv.nextSerial_le (toS.sane start.sane))))

/-- A request is handed over once. -/
theorem Course.handOver_once {content' : Request} (start : Start s₀)
    (course : Course s₀ (before ++ x :: between) y)
    (first : x.agenda = .handOver key content :: rest)
    (again : .handOver key content' ∈ y.agenda) : False := by
  obtain ⟨z, toX, step, fair, fromZ⟩ := course.split
  have next : Next x z := .work step fair
  have apart := toX.reaches.errandsApart start
  have errands : x.errands = key :: State.errands { x with agenda := rest } := by
    rw [State.errands, first]
    rfl
  have known : key.serial < x.ledger.nextSerial := apart.known key (by simp [errands])
  have gone : key ∉ State.errands { x with agenda := rest } := by
    have nodup := apart.nodup
    rw [errands] at nodup
    exact (List.nodup_cons.1 nodup).1
  have sane := toX.sane start
  refine (toX.reaches.tail next).not_mem_errands start fromZ.reaches
    (Nat.lt_of_lt_of_le known (next.nextSerial_le sane)) (fun mem => ?_) (mem_errands again)
  obtain ⟨task, rest', ha, deed⟩ := sane.exists_deed step
  obtain ⟨rfl, rfl⟩ := List.cons.inj (first.symm.trans ha)
  rcases deed.errands with same | ⟨p, serial, -, more⟩
  · exact gone (same ▸ mem)
  · rw [more] at mem
    rcases List.mem_cons.1 mem with rfl | mem
    · exact Nat.ne_of_lt known serial
    · exact gone mem

/-- What is to be handed over, and was registered at some earlier time, was to be handed over
then. -/
theorem Reaches.handOver_of_known (start : Start s₀) (toS : Reaches s₀ s) (h : Reaches s u)
    (known : key.serial < s.ledger.nextSerial) (mem : .handOver key content ∈ u.agenda) :
    .handOver key content ∈ s.agenda := by
  by_contra none
  refine h.invariant (P := fun u => .handOver key content ∉ u.agenda) none ?_ mem
  intro v w hv hn none mem
  have sane := (toS.trans hv).sane start.sane
  have known := Nat.lt_of_lt_of_le known (hv.nextSerial_le (toS.sane start.sane))
  cases hn with
  | work step fair =>
    obtain ⟨task, rest, ha, deed⟩ := sane.exists_deed step
    generalize he : Task.handOver key content = x at mem
    cases deed.brings mem with
    | old old => exact none (he ▸ ha ▸ List.mem_cons_of_mem _ old)
    | sets sets =>
      subst he
      cases errand?_of_sets sets
    | handOver _ enters =>
      cases he
      exact Nat.ne_of_lt known enters.serial
    | pass | resume => cases he
  | call call self =>
    rcases List.mem_cons.1 mem with same | old
    · cases same
    · exact none old
  | rewind n => exact none mem

/-! ## The call of a close -/

/-- Where a close that is handed over was called: a file was open that had been opened by the
request which the close names, and from then on the close was under way. -/
theorem Dispatches.closing (start : Start s₀) (course : Course s₀ before v)
    (h : v.Dispatches w close (.closeFile opener)) : v.there ∧ ∃ file ∈ v.openFiles,
      file.openedBy = opener ∧ (w.trace close).Closing file.id ∧
      ∃ tag followUp, v.Starts w (.closeFile file.id) tag followUp close := by
  obtain ⟨operation, tag, followUp, m, starts, held, request⟩ := h.starts
  obtain ⟨id, rfl, file, mem, rfl, own⟩ := Operation.exists_closeFile_of_request request
  rw [← openFiles_of_mount (mount_of_heldMount? held)] at mem
  refine ⟨there_of_request held request, file, mem, own, ?_, tag, followUp, starts⟩
  obtain ⟨self, p, rfl, bears, owner⟩ :=
    starts.exists_bears (course.sane start) (course.fate start close)
  rw [bears.after]
  exact .outstanding owner

/-- A close that was under way, and whose file may be used again, was completed in between.  It
failed, unless its file was taken out. -/
theorem Course.failed_of_usable {file : OpenFile} (start : Start s₀) (toW : Course s₀ before w)
    (course : Course w between y) (alive : y.there) (closing : (w.trace close).Closing file.id)
    (mem : file ∈ y.openFiles) (usable : file.closing = false) :
    ∃ first r last p ending rest, between = first ++ r :: last ∧
      r.agenda = .complete p ending :: rest ∧ p.key = close ∧
      (ending = .completed .nothing → r.Closes close file.id) := by
  have whole := toW.trans course
  have ceased : ¬ (y.trace close).Closing file.id := by
    intro still
    obtain ⟨other, mem', same, marked⟩ := (whole.kept start).marked alive close file.id still
    rw [(whole.sane start).accounted.eq_of_handle mem mem' same, usable] at marked
    cases marked
  obtain ⟨first, r, last, z, cut, toR, next, -, -, still, gone⟩ :=
    course.exists_turn (P := fun trace => ¬ trace.Closing file.id) (not_not_intro closing) ceased
  have whole := toW.trans toR
  have fate := whole.fate start
  rw [not_not] at still
  rcases next.closing_or_completed (whole.sane start) (fate close) still with
    still | ⟨p, ending, tag, followUp, rest, first', owner⟩
  · exact (gone still).elim
  · have own : p.key = close := by
      refine whole.reaches.closesApart start close p.key file.id still ?_
      rw [((fate p.key).carries first' rfl).1]
      exact .complete owner
    refine ⟨first, r, last, p, ending, rest, cut, first', own, ?_⟩
    rintro rfl
    exact ⟨p, tag, followUp, rest, first', own, owner⟩

/-! ## Behind a close -/

/-- How a request that names an opener comes to be handed over behind a close that names the same.
The close was called in a state `v`, and from there some steps led to where the request is handed
over. -/
inductive Trails (v : State) (steps : List State) (close key : RequestKey) (content : Request)
    (opener : RequestId) : Prop
  /-- The close has failed by then. -/
  | failed {r : State} {p : Pending} {ending : Ending} {rest : List Task} (mem : r ∈ steps)
      (completed : r.agenda = .complete p ending :: rest) (own : p.key = close)
      (fails : ending ≠ .completed .nothing) : Trails v steps close key content opener
  /-- The id has come to name a file that was opened since. -/
  | reopened {r : State} {other : RequestKey} {path : String} {mode : OpenMode}
      {tag : Option String} {id : HandleId} (mem : r ∈ steps)
      (opens : r.Opens other path mode tag id) (own : other.id = opener) :
      Trails v steps close key content opener
  /-- The request was to be handed over already as the close was called. -/
  | underway (ahead : .handOver key content ∈ v.agenda) : Trails v steps close key content opener
  /-- The id named two files as the close was called, one of which did not keep it. -/
  | shared {file other : OpenFile} (mem : file ∈ v.openFiles) (mem' : other ∈ v.openFiles)
      (apart : file.id ≠ other.id) (own : file.openedBy = opener) (own' : other.openedBy = opener)
      (loose : file.holdsOpener = false ∨ other.holdsOpener = false) :
      Trails v steps close key content opener

theorem Trails.mono {more : List State} (h : Trails v steps close key content opener)
    (sub : ∀ r ∈ steps, r ∈ more) : Trails v more close key content opener := by
  cases h with
  | failed mem completed own fails => exact .failed (sub _ mem) completed own fails
  | reopened mem opens own => exact .reopened (sub _ mem) opens own
  | underway ahead => exact .underway ahead
  | shared mem mem' apart own own' loose => exact .shared mem mem' apart own own' loose

theorem ClosedIn.append (h : ClosedIn before id) (after : List State) :
    ClosedIn (before ++ after) id := by
  obtain ⟨first, x, last, key, rfl, called, closes⟩ := h
  exact ⟨first, x, last ++ after, key, by simp, called, closes⟩

/-- A step that records a file calls no operation. -/
theorem Opens.not_starts {path : String} {mode : OpenMode} {tag tag' : Option String}
    {followUp : List Call} (opens : v.Opens key path mode tag id) :
    ¬ v.Starts w operation tag' followUp close := by
  intro starts
  obtain ⟨self, behind, issued⟩ := starts.call
  obtain ⟨p, followUp, rest, completes, -⟩ := opens.first
  rw [issued] at completes
  cases completes

/-- A request that is accepted after a close was called. -/
theorem Dispatches.trails {z : State} (start : Start s₀)
    (course : Course s₀ (before ++ v :: between) y)
    (closes : v.Dispatches w close (.closeFile opener)) (uses : y.Dispatches z key content)
    (names : content.opener? = some opener) :
    Trails v between close key content opener := by
  have none : s₀.openFiles = [] := by cases start <;> rfl
  obtain ⟨operation, tag, followUp, m, -, held, request⟩ := uses.starts
  have alive := there_of_request held request
  obtain ⟨file, ⟨mem, usable⟩, own⟩ :=
    (Operation.allowed_of_request request).2.exists_file names
  rw [← openFiles_of_mount (mount_of_heldMount? held)] at mem
  obtain ⟨-, toV, -, fair, -⟩ := course.split
  obtain ⟨alive', old, mem', own', closing, tag', followUp', called⟩ := closes.closing start toV
  obtain ⟨-, -, fromW⟩ := course.split_of_step called.step
  have toW := toV.work called.step fair
  -- The file was recorded at some time before it is used, and not closed since.
  have holds : y.Holds file.id file.path file.mode opener := ⟨file, mem, rfl, rfl, rfl, own⟩
  rw [course.holds_iff start none alive] at holds
  obtain ⟨first, r, last, other, tag'', cut, opens, named, still⟩ := holds
  rcases List.append_eq_append_iff.1 cut with ⟨more, rfl, same⟩ | ⟨more, rfl, same⟩
  · cases more with
    | nil =>
      cases same
      exact (opens.not_starts called).elim
    | cons _ more =>
      cases same
      exact .reopened (by simp) opens named
  · cases more with
    | nil =>
      cases same
      exact (opens.not_starts called).elim
    | cons _ more =>
      cases same
      -- It was open as the close was called.
      have holds : v.Holds file.id file.path file.mode opener := by
        rw [toV.holds_iff start none alive']
        exact ⟨first, r, more, other, tag'', rfl, opens, named,
          fun closed => still (closed.append _)⟩
      obtain ⟨before, there, same, -, -, own''⟩ := holds
      by_cases apart : old.id = before.id
      · rw [apart, same] at closing called
        obtain ⟨first', q, last', p, ending, rest, rfl, completed, own, granted⟩ :=
          toW.failed_of_usable start fromW alive closing mem usable
        refine .failed (by simp) completed own fun success => still ?_
        have called' : Called (more ++ v :: first') file.id close :=
          ⟨v, by simp, w, tag', followUp', called⟩
        exact ⟨more ++ v :: first', q, last', close, by simp, called', granted success⟩
      · refine .shared mem' there apart own' own'' ?_
        by_contra both
        rw [not_or, Bool.not_eq_false, Bool.not_eq_false] at both
        refine apart (congrArg OpenFile.id ?_)
        exact ((toV.sane start).accounted.opener_of_holds there both.2).2.2 old mem' both.1
          (own'.trans own''.symm)

/-- In every run of a mount, whatever observers, callbacks and the provider do: once a close has
been handed over, a request that names the same opener is handed over only if the close has failed
by then, or the id has come to name a file that was opened since; or if the request was on its way
as the close was called, or the id named two files. -/
theorem handOver_behind_close
    (course : Course (ofMount settings link timersRun firstId horizon)
      (before ++ x :: between ++ y :: after) u)
    (closes : x.agenda = .handOver close (.closeFile opener) :: rest)
    (uses : y.agenda = .handOver key content :: rest') (names : content.opener? = some opener) :
    key ≠ close ∧ ∃ first v last w, before = first ++ v :: last ∧
      v.Dispatches w close (.closeFile opener) ∧
      Trails v (last ++ x :: between) close key content opener := by
  have start : Start (ofMount settings link timersRun firstId horizon) := .mount ..
  obtain ⟨-, toY, -⟩ := course.split
  obtain ⟨-, toX, -⟩ := toY.split
  have ahead : .handOver key content ∈ y.agenda := uses ▸ List.mem_cons_self
  have apart : key ≠ close := by
    rintro rfl
    exact toY.handOver_once start closes ahead
  obtain ⟨first, v, last, w, rfl, called⟩ :=
    toX.exists_dispatches start (closes ▸ List.mem_cons_self)
  obtain ⟨first', v', last', w', cut, called'⟩ := toY.exists_dispatches start ahead
  refine ⟨apart, first, v, last, w, rfl, called, ?_⟩
  rw [List.append_assoc, List.cons_append] at toY cut
  obtain ⟨-, toV, -, fair, fromW⟩ := toY.split
  obtain ⟨-, file, -, -, -, tag, followUp, starts⟩ := called.closing start toV
  obtain ⟨operation, tag', followUp', -, starts', -⟩ := called'.starts
  -- The request was accepted after the close was called, or in the same step, or before.
  rcases List.append_eq_append_iff.1 cut with ⟨more, rfl, same⟩ | ⟨more, rfl, same⟩
  · cases more with
    | nil =>
      obtain ⟨rfl, -⟩ := List.cons.inj same
      obtain rfl := Option.some.inj (starts.step.symm.trans starts'.step)
      exact (apart (starts.key_eq starts' (toV.sane start))).elim
    | cons _ more =>
      obtain ⟨rfl, later⟩ := List.cons.inj same
      change last ++ x :: between = more ++ v' :: last' at later
      rw [later] at toY ⊢
      rw [← List.cons_append, ← List.append_assoc] at toY
      obtain ⟨-, toV', -⟩ := toY.split
      exact (called.trails start toV' called' names).mono fun r hr => by simp [hr]
  · cases more with
    | nil =>
      obtain ⟨rfl, -⟩ := List.cons.inj same
      rw [List.append_nil] at toV
      obtain rfl := Option.some.inj (starts.step.symm.trans starts'.step)
      exact (apart (starts.key_eq starts' (toV.sane start))).elim
    | cons _ more =>
      obtain ⟨rfl, -⟩ := List.cons.inj same
      obtain ⟨toV', -, fromW'⟩ := toV.split_of_step starts'.step
      obtain ⟨_, p, rfl, bears, -⟩ := starts'.exists_bears (toV'.sane start) (toV'.fate start key)
      have sane := bears.next.sane (toV'.sane start)
      have known := Nat.lt_of_lt_of_le (bears.known (toV'.sane start))
        (fromW'.reaches.nextSerial_le sane)
      have toY' : Reaches v y := .head (.work starts.step fair)
        (toY.split_of_step starts.step).2.2.reaches
      exact .underway (toV.reaches.handOver_of_known start toY' known ahead)

/-- A run from a state in which a task is done. -/
theorem exists_course_of_follow? {choices : List Choice}
    (h : x.follow? (.work :: choices) = some y) : ∃ between, Course x (x :: between) y := by
  obtain ⟨z, hz, h⟩ := Option.bind_eq_some_iff.1 h
  rw [take?, Option.ite_none_left_eq_some] at hz
  obtain ⟨fair, step⟩ := hz
  have first : Course x ([] ++ [x]) z :=
    Course.start.work step fun ht => fair (trespasses?_iff.2 ht)
  exact ⟨_, first.trans (course_of_follow? h)⟩

/-- A file is closed, which the provider refuses, and read afterwards. -/
theorem handOver_behind_close_of_failed :
    ∃ before x between y after close key rest rest' u, Course (ofMount
        { info := { providerId := "p", fileSystemId := "f", displayName := "d" } }
        (.direct {}) true) (before ++ x :: between ++ y :: after) u ∧
      x.agenda = .handOver close (.closeFile ⟨1⟩) :: rest ∧
      y.agenda = .handOver key (.readFile ⟨1⟩ 0 1) :: rest' ∧
      key ≠ close ∧ ∃ first v last w, before = first ++ v :: last ∧
        v.Dispatches w close (.closeFile ⟨1⟩) ∧
        Trails v (last ++ x :: between) close key (.readFile ⟨1⟩ 0 1) ⟨1⟩ := by
  obtain ⟨x, rest, y, rest', u, hx, closes, hy, uses, hu⟩ : ∃ x rest y rest' u, (ofMount
        { info := { providerId := "p", fileSystemId := "f", displayName := "d" } }
        (.direct {}) true).follow?
          (calling [(.operate (.openFile "/a" .read) none [], 7),
            (.deliver (.given ⟨1⟩) (.success .nothing), 8),
            (.operate (.closeFile ⟨2⟩) none [], 2)]) = some x ∧
      x.agenda = .handOver ⟨⟨3⟩, 2⟩ (.closeFile ⟨1⟩) :: rest ∧
      x.follow? (.work :: (List.replicate 4 .work ++
        calling [(.deliver (.given ⟨3⟩) (.error .notFound), 8),
          (.operate (.readData ⟨2⟩ 0 1) none [], 2)])) = some y ∧
      y.agenda = .handOver ⟨⟨4⟩, 3⟩ (.readFile ⟨1⟩ 0 1) :: rest' ∧
      y.follow? [.work] = some u :=
    ⟨_, _, _, _, _, rfl, rfl, rfl, rfl, rfl⟩
  obtain ⟨between, toY⟩ := exists_course_of_follow? hy
  obtain ⟨after, fromY⟩ := exists_course_of_follow? hu
  have course := ((course_of_follow? hx).trans toY).trans fromY
  exact ⟨_, x, between, y, after, _, _, rest, rest', u, course, closes, uses,
    handOver_behind_close course closes uses rfl⟩

/-- An observer closes each file as it is used.  The provider is handed the close first, and the
request that uses the file behind it, with the close still outstanding. -/
theorem read_behind_close :
    ∃ before x between y close key rest rest', Course (ofMount
        { info := { providerId := "p", fileSystemId := "f", displayName := "d" } }
        (.direct {}) true) (before ++ x :: between) y ∧
      x.agenda = .handOver close (.closeFile ⟨1⟩) :: rest ∧
      y.agenda = .handOver key (.readFile ⟨1⟩ 0 1) :: rest' ∧
      (y.ledger.findExact? close).isSome ∧
      y.openFiles.map (fun file => (file.openedBy, file.closing)) = [(⟨1⟩, true)] := by
  obtain ⟨x, rest, y, rest', hx, closes, hy, uses, outstanding, marked⟩ :
      ∃ x rest y rest', (ofMount
        { info := { providerId := "p", fileSystemId := "f", displayName := "d" } }
        (.direct {}) true).follow?
          (calling [(.operate (.openFile "/a" .read) none [], 7),
            (.deliver (.given ⟨1⟩) (.success .nothing), 8),
            (.observe "o" { created := { steps := [.operate (.closeFile ⟨2⟩) none []] } }, 1),
            (.operate (.readData ⟨2⟩ 0 1) none [], 6)]) = some x ∧
      x.agenda = .handOver ⟨⟨4⟩, 3⟩ (.closeFile ⟨1⟩) :: rest ∧
      x.follow? (.work :: List.replicate 5 .work) = some y ∧
      y.agenda = .handOver ⟨⟨3⟩, 2⟩ (.readFile ⟨1⟩ 0 1) :: rest' ∧
      (y.ledger.findExact? ⟨⟨4⟩, 3⟩).isSome ∧
      y.openFiles.map (fun file => (file.openedBy, file.closing)) = [(⟨1⟩, true)] :=
    ⟨_, _, _, _, rfl, rfl, rfl, rfl, rfl, rfl⟩
  obtain ⟨between, toY⟩ := exists_course_of_follow? hy
  exact ⟨_, x, between, y, _, _, rest, rest', (course_of_follow? hx).trans toY, closes, uses,
    outstanding, marked⟩

end State

end FileRelay
