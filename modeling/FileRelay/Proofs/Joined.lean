import FileRelay.Proofs.Facade
import FileRelay.Proofs.Streams

/-!
# Joining a streamed reply

A listing or a read whose reply comes in parts gives its caller all of them joined, in the
order in which they were accepted, with the last reply behind them; a single one that does
not fit spoils the whole.  What else goes on meanwhile, with other requests that are streamed
as well, is of no concern.
-/

namespace FileRelay

/-- The page that a reply carries. -/
def Reply.page? : Reply → Option ListingPage
  | .listing page => some page
  | _ => none

/-- The bytes that a reply carries. -/
def Reply.bytes? : Reply → Option (List UInt8)
  | .data bytes => some bytes
  | _ => none

/-- All pages as one: their entries in order, and the cursor of the last. -/
def ListingPage.join (pages : List ListingPage) : ListingPage where
  entries := pages.flatMap (·.entries)
  cursor := pages.getLast?.bind (·.cursor)

/-- What the replies to a listing, or else to a read, come to if they all fit. -/
def Operation.join (replies : List Reply) : Operation → Except Failure Value
  | .readDirectory .. =>
    match replies.mapM Reply.page? with
    | some pages => .ok (.listing (.join pages))
    | none => .error .invalidData
  | _ =>
    match replies.mapM Reply.bytes? with
    | some chunks => .ok (.data chunks.flatten)
    | none => .error .invalidData

/-- What the caller of a listing or a read is given if the request ends in some way after
some parts of the reply. -/
def Operation.joined (operation : Operation) (parts : List Reply) (ending : Ending) :
    Except Failure Value :=
  ending.result >>= fun last => operation.join (parts ++ [last])

/-- The cursor of the last page is what is left of all their cursors. -/
theorem ListingPage.join_concat (pages : List ListingPage) (last : ListingPage) :
    join (pages ++ [last]) = ⟨pages.flatMap (·.entries) ++ last.entries, last.cursor⟩ := by
  simp [join]

/-! ## Collecting is joining -/

namespace Expectation

variable {expects : Expectation} {part : Reply}

theorem collectAll_cons (expects : Expectation) (part : Reply) (parts : List Reply) :
    expects.collectAll (part :: parts) = (expects.collect part).collectAll parts := rfl

/-- Once spoiled, nothing is collected any more. -/
theorem collectAll_data_error (e : Failure) (parts : List Reply) :
    (data (.error e)).collectAll parts = data (.error e) := by
  induction parts with
  | nil => rfl
  | cons part parts ih => exact ih

theorem collectAll_listing_error (e : Failure) (parts : List Reply) :
    (listing (.error e)).collectAll parts = listing (.error e) := by
  induction parts with
  | nil => rfl
  | cons part parts ih => exact ih

/-- A read holds the bytes of all parts, unless one of them did not fit. -/
theorem collectAll_data (bytes : List UInt8) (parts : List Reply) :
    (data (.ok bytes)).collectAll parts = data (
      match parts.mapM Reply.bytes? with
      | some chunks => .ok (bytes ++ chunks.flatten)
      | none => .error .invalidData) := by
  induction parts generalizing bytes with
  | nil => simp [collectAll]
  | cons part parts ih =>
    rw [collectAll_cons, List.mapM_cons]
    cases part with
    | data more =>
      rw [show (data (.ok bytes)).collect (.data more) = data (.ok (bytes ++ more)) from rfl, ih]
      cases parts.mapM Reply.bytes? <;> simp [Reply.bytes?]
    | nothing | metadata | listing => exact collectAll_data_error _ parts

/-- A listing holds the entries of all parts, unless one of them did not fit. -/
theorem collectAll_listing (page : ListingPage) (parts : List Reply) :
    ∃ cursor, (listing (.ok page)).collectAll parts = listing (
      match parts.mapM Reply.page? with
      | some pages => .ok ⟨page.entries ++ pages.flatMap (·.entries), cursor⟩
      | none => .error .invalidData) := by
  induction parts generalizing page with
  | nil => exact ⟨page.cursor, by simp [collectAll]⟩
  | cons part parts ih =>
    rw [collectAll_cons, List.mapM_cons]
    cases part with
    | listing more =>
      obtain ⟨cursor, h⟩ := ih ⟨page.entries ++ more.entries, more.cursor⟩
      refine ⟨cursor, h.trans ?_⟩
      cases parts.mapM Reply.page? <;> simp [Reply.page?]
    | nothing | metadata | data => exact ⟨none, collectAll_listing_error _ parts⟩

theorem streams_collectAll (expects : Expectation) (parts : List Reply) :
    (expects.collectAll parts).streams = expects.streams := by
  induction parts generalizing expects with
  | nil => rfl
  | cons part parts ih =>
    rw [collectAll_cons, ih]
    unfold collect
    split
    · split <;> rfl
    · split <;> rfl
    · rfl

/-- Of an operation that takes its reply in parts, the caller gets what the end of the request
gives. -/
theorem eq_of_gives {ending : Ending} {result : Except Failure Value} (streams : expects.streams)
    (h : expects.Gives ending result) :
    result = ending.result >>= fun reply => expects.resolve reply := by
  unfold Gives at h
  split at h
  · cases streams
  · exact h

end Expectation

/-- What was collected and the last reply resolve to all of them joined. -/
theorem Operation.resolve_collectAll {operation : Operation}
    (streams : operation.expectation.streams) (parts : List Reply) (last : Reply) :
    (operation.expectation.collectAll parts).resolve last = operation.join (parts ++ [last]) := by
  cases operation with
  | readDirectory path cursor =>
    obtain ⟨cursor, h⟩ := Expectation.collectAll_listing {} parts
    simp only [expectation, h, join, List.mapM_append]
    cases parts.mapM Reply.page? with
    | none => cases last <;> rfl
    | some pages =>
      cases last with
      | listing page =>
        exact congrArg (Except.ok ∘ Value.listing) (ListingPage.join_concat pages page).symm
      | nothing | metadata | data => rfl
  | readData file offset length =>
    simp only [expectation, Expectation.collectAll_data, join, List.mapM_append]
    cases parts.mapM Reply.bytes? with
    | none => cases last <;> rfl
    | some chunks =>
      cases last with
      | data bytes =>
        simp [Expectation.resolve, Reply.bytes?, appendData?, pure, bind, Except.pure, Except.bind]
      | nothing | metadata | listing => rfl
  | _ => cases streams

theorem Owner.collectAll_operation (expects : Expectation) (tag : Option String)
    (followUp : List Call) (parts : List Reply) :
    (Owner.operation expects tag followUp).collectAll parts =
      .operation (expects.collectAll parts) tag followUp := by
  induction parts generalizing expects with
  | nil => rfl
  | cons part parts ih => exact ih (expects.collect part)

namespace State

variable {s₀ u v w x y : State} {task : Task} {key : RequestKey} {p q : Pending} {ending : Ending}
  {operation : Operation} {tag : Option String} {followUp : List Call} {steps before : List State}

/-! ## The request of an operation -/

/-- The step that accepts an operation registers its request, for which the caller waits with
nothing collected so far. -/
theorem Starts.exists_bears (h : v.Starts w operation tag followUp key) (hv : v.Sane)
    (fate : v.Fate key) : ∃ self p, p.key = key ∧
      v.Bears w (.issue (.operate operation tag followUp) self) p ∧
      p.owner = .operation operation.expectation tag followUp := by
  obtain ⟨self, rest, called⟩ := h.call
  obtain ⟨p, found, same⟩ := h.after
  obtain ⟨mem, rfl⟩ := mem_of_findExact? found
  have fair := not_trespasses called (by simp)
  have next : Next v w := .work h.step fair
  have nothing : v.trace p.key = {} := by
    have absent := h.before
    rw [findExact?_eq] at absent
    cases fate with
    | nothing nothing => exact nothing
    | outstanding _ entry =>
      rw [entry] at absent
      cases absent
    | settled known own settled =>
      rw [← own] at found
      have still := next.settled hv (own ▸ known) (own ▸ settled)
      rw [findExact?_eq, still.outstanding_eq_nil] at found
      cases found
  have born : v.Bears w (.issue (.operate operation tag followUp) self) p :=
    ⟨next, h.step, ⟨rest, called⟩, ⟨_, rfl, same⟩, nothing, ((next.fate hv fate).of_mem mem).2⟩
  obtain ⟨rest', -, enters⟩ := born.enters hv
  exact ⟨self, p, rfl, born, (Option.some.inj enters.owner).symm⟩

/-- A request is completed only by a reply that is delivered to it. -/
theorem Ends.delivery? {last : Reply} (h : x.Ends y q (.completed last)) :
    x.delivery? q.key = some (.success last) := by
  obtain ⟨task, rest, ha, ends⟩ := h.task
  have step := h.step
  rw [step_of_agenda ha, Option.some.injEq] at step
  rw [delivery?_of_agenda ha h.before]
  have success : ∀ {delivery : Delivery}, delivery.ending? = some (.completed last) →
      delivery = .success last := by
    intro delivery hd
    cases delivery <;> cases hd
    rfl
  cases task with
  | issue call self =>
    cases call with
    | deliver ref delivery =>
      rw [Task.ending?, Option.ite_none_right_eq_some] at ends
      rw [Task.delivery?, success ends.2]
      by_cases held : x.managerHeld
      · rw [if_pos ⟨held, ends.1⟩]
      · -- Without a manager nothing is delivered, and the request stays.
        have refused : y = ({ x with agenda := rest } : State).reply (.deliver ref delivery)
            (.word .noManager) := by
          rw [← step]
          exact if_neg held
        have gone := h.after
        rw [refused] at gone
        exact absurd (h.before.symm.trans gone) (by simp)
    | shutDownRequests => cases ends
    | abort | timeOut | abortSlot =>
      rw [Task.ending?] at ends
      split at ends <;> cases ends
    | _ => cases ends
  | poll =>
    rw [Task.ending?] at ends
    rw [Task.delivery?]
    rcases hc : x.channel? with _ | ⟨outbox, listening, _ | ⟨message, waiting⟩, capacity⟩
    · rw [hc] at ends
      cases ends
    · rw [hc] at ends
      cases ends
    · rw [hc] at ends
      dsimp only at ends ⊢
      rw [Option.ite_none_right_eq_some] at ends
      rw [if_pos ends.1, success ends.2]
  | elapse time =>
    rw [Task.ending?] at ends
    split at ends <;> cases ends
  | verdict request =>
    rw [Task.ending?, Option.ite_none_right_eq_some, Option.map_eq_some_iff] at ends
    obtain ⟨-, failure, -, ends⟩ := ends
    cases ends
  | _ => cases ends

/-! ## What the caller is given -/

/-- If no part is delivered while the request is busy with another one, all that were accepted
have been passed on by the time that it is not busy. -/
theorem Course.passed_of_idle (start : Start s₀) (reached : Reaches s₀ v)
    (born : v.Bears w task p) (streams : task.streams) (course : Course w before x)
    (apart : ∀ z ∈ before, ∀ reply, z.delivery? p.key = some (.part reply) →
      z.busy p.key = false) (idle : x.busy p.key = false) :
    before.filterMap (·.passes? p.key) = before.filterMap (·.accepts? p.key) := by
  have order := (course.flow start reached born streams).order
  rw [underway_eq, busy_eq_false_iff.1 idle, List.filterMap_nil, List.append_nil] at order
  rw [order]
  apply List.filterMap_congr
  intro z hz
  cases accepted : z.accepts? p.key with
  | none =>
    rw [takes?, accepted]
    exact ite_self none
  | some reply =>
    rw [accepts?, Option.bind_eq_some_iff] at accepted
    obtain ⟨delivery, delivered, part⟩ := accepted
    cases delivery <;> cases part
    obtain ⟨first, last, rfl⟩ := List.append_of_mem hz
    obtain ⟨_, toZ, -⟩ := course.split
    rw [(toZ.flow start reached born streams).takes?_of_idle (apart z hz _ delivered), accepts?,
      delivered]
    rfl

/-- What the callback of a listing or a read is invoked with, once its request has ended. -/
theorem Flow.reported {event : Event} (flow : Flow p before x)
    (owner : p.owner = .operation operation.expectation tag followUp)
    (streams : operation.expectation.streams) (ends : x.Ends y q ending) (own : q.key = p.key)
    (passed : ∀ last, ending = .completed last →
      before.filterMap (·.passes? p.key) = before.filterMap (·.accepts? p.key))
    (reports : event.Reports q ending) :
    event = .done p.key tag (operation.joined (before.filterMap (·.accepts? p.key)) ending) := by
  have given := flow.given q (own ▸ ends.before)
  rw [owner, Owner.collectAll_operation] at given
  cases reports with
  | client hq =>
    rw [given] at hq
    cases hq
  | operation hq gives =>
    rw [given] at hq
    cases hq
    rw [Expectation.eq_of_gives (by rw [Expectation.streams_collectAll, streams]) gives, own]
    cases ending with
    | completed last =>
      rw [passed last rfl]
      exact congrArg (Event.done p.key tag) (Operation.resolve_collectAll streams _ last)
    | rejected | aborted | timedOut | shutDown => rfl

/-- For every listing and every read of a mount, in every run: it ends at most once, and its
caller is given the parts that were accepted for it up to then, and the last reply, joined; or
the error with which it ended.  All that goes on with other requests is of no account.  Nobody
may answer the request itself, though, while it is busy with a part, as an observer could from
its own hook. -/
theorem streamed_reply_joined (start : Start s₀) (reached : Reaches s₀ v)
    (starts : v.Starts w operation tag followUp key) (streams : operation.expectation.streams)
    (course : Course w steps u)
    (apart : ∀ x ∈ steps, ∀ reply, x.delivery? key = some (.part reply) ∨
      x.delivery? key = some (.success reply) → x.busy key = false) :
    (u.ledger.findExact? key).isSome ∧ u.callbacks key = [] ∨
    ∃ before x after y q ending, steps = before ++ x :: after ∧ x.Ends y q ending ∧ q.key = key ∧
      (u.callbacks key = [] ∧ u.agenda ≠ [] ∨ u.callbacks key =
        [.done key tag (operation.joined (before.filterMap (·.accepts? key)) ending)]) := by
  have sane := reached.sane start.sane
  obtain ⟨self, p, rfl, born, owner⟩ :=
    starts.exists_bears sane (reached.fate start.sane (start.fate key))
  have toW : Reaches s₀ w := reached.tail born.next
  have fate : w.Fate p.key := toW.fate start.sane (start.fate p.key)
  obtain ⟨known, entry⟩ := fate.of_mem (mem_of_trace (congrArg Trace.outstanding born.after)).1
  rw [callbacks_eq, findExact?_eq]
  rcases course.life (toW.sane start.sane) known entry with ⟨q, same, entry⟩ |
    ⟨before, x, after, y, q, ending, rfl, toX, ends, -, same, -, settled⟩ | ⟨client, -⟩
  · rw [entry]
    exact .inl ⟨rfl, rfl⟩
  · refine .inr ⟨before, x, after, y, q, ending, rfl, ends, same.key, ?_⟩
    rcases settled.owed_or_paid with ⟨task, -, owed, paid⟩ | ⟨event, reports, -, paid⟩
    · refine .inl ⟨paid, fun idle => ?_⟩
      rw [trace, idle] at owed
      cases owed
    · refine .inr (paid.trans (congrArg (fun event => [event]) ?_))
      refine (toX.flow start reached born streams).reported owner streams ends same.key ?_ reports
      rintro last rfl
      have success := ends.delivery?
      rw [same.key] at success
      have early : ∀ z ∈ before, z ∈ before ++ x :: after := fun z => List.mem_append_left _
      exact toX.passed_of_idle start reached born streams
        (fun z hz reply part => apart z (early z hz) reply (.inl part))
        (apart x (by simp) last (.inr success))
  · rw [owner] at client
    cases client

/-- A listing arrives in two pages, and a page of another listing in between: the caller is
given the entries of its own two, and the cursor of the last. -/
theorem streamed_reply_joined_of_two :
    ∃ (v w : State) (key : RequestKey) (steps : List State) (u : State),
      v.Starts w (.readDirectory "/a" none) none [] key ∧ Course w steps u ∧
      ∃ before x after y q ending, steps = before ++ x :: after ∧ x.Ends y q ending ∧
        u.callbacks key = [.done key none
          ((Operation.readDirectory "/a" none).joined (before.filterMap (·.accepts? key)) ending)] ∧
        (Operation.readDirectory "/a" none).joined (before.filterMap (·.accepts? key)) ending =
          .ok (.listing { entries := [⟨"x", false⟩, ⟨"y", true⟩], cursor := some ⟨"c"⟩ }) := by
  have called := Next.call (s := ofMount
    { info := { providerId := "p", fileSystemId := "f", displayName := "d" } } (.direct {}) true)
    (.operate (.readDirectory "/a" none) none []) ⟨0⟩
  obtain ⟨w, choices, u, starts, hu, idle, ended, given, alone⟩ :
      ∃ (w : State) (choices : List Choice) (u : State), State.Starts
        ((ofMount { info := { providerId := "p", fileSystemId := "f", displayName := "d" } }
          (.direct {}) true).push [.issue (.operate (.readDirectory "/a" none) none []) ⟨0⟩])
        w (.readDirectory "/a" none) none [] ⟨⟨1⟩, 1⟩ ∧
      w.follow? choices = some u ∧ u.agenda = [] ∧ u.ledger.findExact? ⟨⟨1⟩, 1⟩ = none ∧
      u.callbacks ⟨⟨1⟩, 1⟩ = [.done ⟨⟨1⟩, 1⟩ none
        (.ok (.listing { entries := [⟨"x", false⟩, ⟨"y", true⟩], cursor := some ⟨"c"⟩ }))] ∧
      ∀ x ∈ w.trail choices, (x.delivery? ⟨⟨1⟩, 1⟩).isSome → x.busy ⟨⟨1⟩, 1⟩ = false :=
    ⟨_, List.replicate 6 .work ++
        .call (.deliver (.given ⟨1⟩) (.part (.listing { entries := [⟨"x", false⟩] }))) ⟨0⟩ ::
        List.replicate 5 .work ++
        .call (.operate (.readDirectory "/b" none) none []) ⟨0⟩ :: List.replicate 7 .work ++
        .call (.deliver (.given ⟨2⟩) (.part (.listing { entries := [⟨"z", false⟩] }))) ⟨0⟩ ::
        List.replicate 5 .work ++
        .call (.deliver (.given ⟨1⟩) (.success (.listing
          { entries := [⟨"y", true⟩], cursor := some ⟨"c"⟩ }))) ⟨0⟩ :: List.replicate 8 .work,
      _, ⟨rfl, ⟨⟨0⟩, [], rfl⟩, rfl, _, rfl, .refl _⟩, rfl, rfl, rfl, rfl, by decide +kernel⟩
  have course := course_of_follow? hu
  refine ⟨_, _, ⟨⟨1⟩, 1⟩, _, u, starts, course, ?_⟩
  have apart : ∀ x ∈ w.trail choices, ∀ reply, x.delivery? ⟨⟨1⟩, 1⟩ = some (.part reply) ∨
      x.delivery? ⟨⟨1⟩, 1⟩ = some (.success reply) → x.busy ⟨⟨1⟩, 1⟩ = false := by
    intro x hx reply delivered
    exact alone x hx (by rcases delivered with h | h <;> rw [h] <;> rfl)
  rcases streamed_reply_joined (.mount _ _ _ _ _) (.head called (.refl _)) starts rfl course
    apart with
    ⟨still, -⟩ | ⟨before, x, after, y, q, ending, cut, ends, -, ⟨-, busy⟩ | joined⟩
  · rw [ended] at still
    cases still
  · exact (busy idle).elim
  · refine ⟨before, x, after, y, q, ending, cut, ends, joined, ?_⟩
    rw [joined] at given
    exact (Event.done.inj (List.cons.inj given).1).2.2

end State

end FileRelay
