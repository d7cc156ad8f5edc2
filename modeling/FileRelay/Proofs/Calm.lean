import FileRelay.Proofs.Change.Tasks

/-!
# Calm

Most of what the machine does is of no concern to the parts of a reply, to the handing
over of requests and to the files that are open.  This file says what it is to leave these
alone: the tasks put on the agenda are *calm* or follow from the one that is done, and so
are the events recorded; no request comes to be outstanding, and those that stay so take
parts as before and have been given no more of them; the open files are the same.
-/

namespace FileRelay

/-- Whether a task has nothing to do with a part of a reply, a request to be handed over,
the end of a request or the files of a mount that was taken down. -/
def Task.calm : Task → Bool
  | .tell _ _ (.finished ..) | .announce .. | .pass .. | .resume _ | .handOver ..
  | .closeFiles _ => false
  | _ => true

/-- Whether an event has nothing to do with a part of a reply, and did not go to the
provider. -/
def Event.calm : Event → Bool
  | .part .. | .handedOver .. | .cancelled .. => false
  | _ => true

/-- What doing a task may put on the agenda besides tasks that concern parts and requests
to be handed over. -/
inductive Task.Sets : Task → Task → Prop
  | calm {task x : Task} (h : x.calm) : Sets task x
  | announce (p : Pending) (ending : Ending) :
      Sets (.finish p ending) (.announce p.key (.finished p.kind ending.outcome))
  | tell (observer : Nat) (request : RequestKey) (moment : Moment) :
      Sets (.announce request moment) (.tell observer request moment)
  | closeFiles (aborted : Nat) : Sets .takeDown (.closeFiles aborted)

/-- What doing a task may record besides parts of a reply. -/
inductive Task.Records : Task → Event → Prop
  | calm {task : Task} {event : Event} (h : event.calm) : Records task event
  | handedOver (request : RequestKey) (content : Request) (shown : Bool) :
      Records (.handOver request content) (.handedOver request content shown)
  | cancelled (observer : Nat) (request : RequestKey) (kind : Request.Kind) {outcome : Outcome}
      (shown : Bool) (h : outcome.abandoned) :
      Records (.tell observer request (.finished kind outcome)) (.cancelled request shown)

/-- The same request, which takes parts of its reply as before and has been given no more
of them. -/
structure Pending.Alike (p q : Pending) : Prop where
  key : q.key = p.key
  accepting : q.accepting = p.accepting
  owner : q.owner = p.owner

theorem Pending.Alike.refl (p : Pending) : p.Alike p := ⟨rfl, rfl, rfl⟩

theorem Pending.Alike.trans {p q r : Pending} (h : p.Alike q) (k : q.Alike r) : p.Alike r :=
  ⟨k.key.trans h.key, k.accepting.trans h.accepting, k.owner.trans h.owner⟩

namespace State

variable {task : Task} {s t u : State}

/-- Parts of a reply and requests to be handed over are left alone. -/
structure Quiet (task : Task) (s t : State) : Prop where
  agenda : ∃ tasks, t.agenda = tasks ++ s.agenda ∧ ∀ x ∈ tasks, task.Sets x
  history : ∃ events, t.history = events ++ s.history ∧ ∀ event ∈ events, task.Records event
  entries : ∀ q ∈ t.ledger.entries, ∃ p ∈ s.ledger.entries, p.Alike q

/-- So are the open files. -/
structure Calm (task : Task) (s t : State) : Prop extends Quiet task s t where
  files : t.openFiles = s.openFiles

theorem Quiet.trans (h : Quiet task s t) (k : Quiet task t u) : Quiet task s u where
  agenda := by
    obtain ⟨tasks, ht, quiet⟩ := h.agenda
    obtain ⟨more, hu, quiet'⟩ := k.agenda
    refine ⟨more ++ tasks, by rw [hu, ht, List.append_assoc], ?_⟩
    intro x hx
    exact (List.mem_append.1 hx).elim (quiet' x) (quiet x)
  history := by
    obtain ⟨events, ht, silent⟩ := h.history
    obtain ⟨more, hu, silent'⟩ := k.history
    refine ⟨more ++ events, by rw [hu, ht, List.append_assoc], ?_⟩
    intro x hx
    exact (List.mem_append.1 hx).elim (silent' x) (silent x)
  entries := by
    intro r hr
    obtain ⟨q, hq, hqr⟩ := k.entries r hr
    obtain ⟨p, hp, hpq⟩ := h.entries q hq
    exact ⟨p, hp, hpq.trans hqr⟩

namespace Calm

theorem trans (h : Calm task s t) (k : Calm task t u) : Calm task s u :=
  ⟨h.toQuiet.trans k.toQuiet, k.files.trans h.files⟩

/-! ## Small changes -/

/-- Requests may leave the ledger. -/
theorem of_subset (agenda : t.agenda = s.agenda) (history : t.history = s.history)
    (entries : ∀ p ∈ t.ledger.entries, p ∈ s.ledger.entries)
    (files : t.openFiles = s.openFiles) : Calm task s t where
  agenda := ⟨[], agenda, by simp⟩
  history := ⟨[], history, by simp⟩
  entries := fun q hq => ⟨q, entries q hq, .refl q⟩
  files := files

theorem refl (s : State) : Calm task s s := of_subset rfl rfl (fun _ hp => hp) rfl

/-- Timers, clock, observers, scripts, slots and ids are of no concern. -/
theorem aside (agenda : t.agenda = s.agenda) (history : t.history = s.history)
    (ledger : t.ledger = s.ledger) (files : t.openFiles = s.openFiles) : Calm task s t :=
  of_subset agenda history (fun p hp => by rwa [ledger] at hp) files

theorem push (s : State) {tasks : List Task} (h : ∀ x ∈ tasks, task.Sets x) :
    Calm task s (s.push tasks) where
  agenda := ⟨tasks, rfl, h⟩
  history := ⟨[], rfl, by simp⟩
  entries := fun q hq => ⟨q, hq, .refl q⟩
  files := rfl

theorem push_calm (s : State) {tasks : List Task} (h : ∀ x ∈ tasks, x.calm) :
    Calm task s (s.push tasks) :=
  push s fun x hx => .calm (h x hx)

theorem push_script (s : State) (steps : List Call) (self : RequestId) :
    Calm task s (s.push (Task.script steps self)) := by
  apply push_calm
  intro x hx
  obtain ⟨call, -, rfl⟩ := List.mem_map.1 hx
  rfl

theorem calm_of_mem_tells {x : Task} {request : RequestKey} {moment : Moment}
    (h : x ∈ s.tells request moment) (calm : ∀ i, (Task.tell i request moment).calm) : x.calm := by
  obtain ⟨i, -, rfl⟩ := List.mem_map.1 h
  exact calm i

theorem record (s : State) {event : Event} (h : task.Records event) :
    Calm task s (s.emit event) where
  agenda := ⟨[], rfl, by simp⟩
  history := ⟨[event], rfl, by simpa using h⟩
  entries := fun q hq => ⟨q, hq, .refl q⟩
  files := rfl

theorem emit (s : State) {event : Event} (h : event.calm) : Calm task s (s.emit event) :=
  record s (.calm h)

theorem note (s : State) (notice : Notice) : Calm task s (s.note notice) := emit s rfl

theorem reply (s : State) (call : Call) (answer : Answer) : Calm task s (s.reply call answer) :=
  emit s rfl

theorem arm (s : State) (request : RequestKey) (deadline : Nat) :
    Calm task s (s.arm request deadline) := by
  rw [State.arm]
  split
  · exact aside rfl rfl rfl rfl
  · exact note s _

/-- The stage of a request and its deadline are of no concern. -/
theorem modify (s : State) (key : RequestKey) {f : Pending → Pending}
    (h : ∀ p : Pending, p.Alike (f p)) :
    Calm task s { s with ledger := s.ledger.modify key f } where
  agenda := ⟨[], rfl, by simp⟩
  history := ⟨[], rfl, by simp⟩
  entries := by
    intro q hq
    obtain ⟨p, hp, rfl⟩ := List.mem_map.1 hq
    refine ⟨p, hp, ?_⟩
    split
    · exact h p
    · exact .refl p
  files := rfl

theorem modifyMount (s : State) {f : Mount → Mount} (h : ∀ m, (f m).files = m.files) :
    Calm task s (s.modifyMount f) := by
  refine aside rfl rfl rfl ?_
  rw [openFiles, openFiles, State.modifyMount]
  cases s.mount with
  | none => rfl
  | some m => simp [h m]

theorem modifyDirect (s : State) (f : DirectLink → DirectLink) :
    Calm task s (s.modifyDirect f) := by
  refine modifyMount s fun m => ?_
  cases m.link <;> rfl

theorem modifyChannel (s : State) (f : ChannelLink → ChannelLink) :
    Calm task s (s.modifyChannel f) := by
  refine modifyMount s fun m => ?_
  cases m.link <;> rfl

/-! ## Requests -/

theorem finishNow (s : State) (p : Pending) (ending : Ending) :
    Calm task s (s.finishNow p ending) := by
  have pulled : Calm task s (s.pull p) :=
    of_subset rfl rfl (fun q hq => (List.mem_filter.1 hq).1) rfl
  exact pulled.trans (push_calm _ (by simp [Task.calm]))

theorem timeOut (s : State) (p : Pending) : Calm task s (s.timeOut p) :=
  (note s _).trans (finishNow _ p _)

theorem drain (s : State) {after : List Task} (h : ∀ x ∈ after, task.Sets x) :
    Calm task s (s.drain after) := by
  have emptied : Calm task s { s with
      ledger := { s.ledger with entries := [] }
      pool := s.pool.releaseAll (s.ledger.entries.map (·.id.val)) } :=
    of_subset rfl rfl (by simp) rfl
  have sets : ∀ x ∈ s.ledger.entries.map (fun p => Task.finish p .shutDown) ++ after,
      task.Sets x := by
    intro x hx
    rcases List.mem_append.1 hx with hx | hx
    · obtain ⟨p, -, rfl⟩ := List.mem_map.1 hx
      exact .calm rfl
    · exact h x hx
  unfold State.drain
  dsimp only
  split
  · exact emptied.trans (push _ sets)
  · exact (emptied.trans (note _ _)).trans (push _ sets)

theorem markDelivered (s : State) (id : RequestId) : Calm task s (s.markDelivered id) := by
  unfold State.markDelivered
  split
  · exact refl s
  · rename_i p _
    have marked : Calm task s
        { s with ledger := s.ledger.modify p.key ({ · with stage := .delivered }) } :=
      modify s p.key fun q => ⟨rfl, rfl, rfl⟩
    refine marked.trans (push_calm _ ?_)
    intro x hx
    exact calm_of_mem_tells hx fun _ => rfl

/-- Delivering is calm unless a part comes to a request that is there. -/
theorem deliver (s : State) (id : RequestId) (delivery : Delivery)
    (h : ∀ p reply, s.ledger.find? id = some p → delivery ≠ .part reply) :
    Calm task s (s.deliver id delivery) := by
  unfold State.deliver
  cases hp : s.ledger.find? id with
  | none => cases delivery <;> exact note s _
  | some p =>
    cases delivery with
    | part reply => exact (h p reply hp rfl).elim
    | success reply => exact finishNow s p _
    | error failure => exact finishNow s p _

/-- A request is finished: its callback is to be invoked, and its end announced. -/
theorem finish (s : State) (p : Pending) (ending : Ending) :
    Calm (.finish p ending) s (s.finish p ending) := by
  have stopped : Calm (.finish p ending) s { s with timers := s.timers.stop p.key } :=
    aside rfl rfl rfl rfl
  have noted := stopped.trans (note _ (.requestFinished p.id p.kind ending.outcome))
  have ready : Calm (.finish p ending) s { ({ s with timers := s.timers.stop p.key } : State).note
      (.requestFinished p.id p.kind ending.outcome) with finishScript := [] } :=
    noted.trans (aside rfl rfl rfl rfl)
  refine ready.trans (push _ ?_)
  intro x hx
  rcases List.mem_append.1 hx with hx | hx
  · obtain ⟨call, -, rfl⟩ := List.mem_map.1 hx
    exact .calm rfl
  · rcases List.mem_cons.1 hx with rfl | hx
    · exact .calm rfl
    · rw [List.mem_singleton.1 hx]
      exact .announce p ending

theorem done (s : State) (request : RequestKey) (tag : Option String)
    (result : Except Failure Value) (followUp : List Call) :
    Calm task s (s.done request tag result followUp) :=
  (emit s rfl).trans (push_script _ _ _)

/-! ## The provider's end -/

/-- Handing a request over is calm but for the event that records it. -/
theorem handOver (s : State) (request : RequestKey) (content : Request) :
    Calm (.handOver request content) s (s.handOver request content) := by
  unfold State.handOver
  split
  · exact refl s
  · split
    · exact (record s (.handedOver request content true)).trans
        ((modifyDirect _ _).trans (push_script _ _ _))
    · exact (record s (.handedOver request content false)).trans (modifyChannel _ _)

theorem verdict (s : State) (request : RequestKey) : Calm task s (s.verdict request) := by
  unfold State.verdict
  split
  · exact markDelivered s _
  · exact (note s _).trans (deliver _ _ _ (by simp))

/-- Cancelling is calm but for the event that records it. -/
theorem cancel (s : State) {request : RequestKey}
    (told : ∀ shown, task.Records (.cancelled request shown)) : Calm task s (s.cancel request) := by
  unfold State.cancel
  split
  · exact refl s
  · split
    · split
      · refine ((record s (told _)).trans (modifyDirect _ _)).trans (push_calm _ ?_)
        intro x hx
        rcases List.mem_append.1 hx with hx | hx
        · obtain ⟨call, -, rfl⟩ := List.mem_map.1 hx
          rfl
        · rw [List.mem_singleton.1 hx]
          rfl
      · exact record s (told _)
    · refine ((record s (told _)).trans (modifyChannel _ _)).trans (push_calm _ ?_)
      simp [Task.calm]

theorem cancelVerdict (s : State) (request : RequestKey) :
    Calm task s (s.cancelVerdict request) := by
  unfold State.cancelVerdict
  split
  · exact refl s
  · exact note s _

theorem tell (s : State) (observer : Nat) (request : RequestKey) (moment : Moment) :
    Calm (.tell observer request moment) s (s.tell observer request moment) := by
  unfold State.tell
  split
  · exact refl s
  · split
    · rename_i kind _ _ abandoned
      exact cancel s fun shown => .cancelled observer request kind shown abandoned
    · exact refl s
  · exact refl s
  · refine .trans ?_ (push_script _ _ _)
    exact (@emit (.tell observer request _) s (.observed _ request _) rfl).trans
      (aside rfl rfl rfl rfl)

/-! ## The mount -/

theorem takeDown (s : State) : Calm .takeDown s s.takeDown := by
  unfold State.takeDown
  split
  · rename_i m hm
    split
    · have down : Calm .takeDown s { s with mount := some { m with mounted := false } } :=
        aside rfl rfl rfl (by rw [openFiles, openFiles, hm])
      refine down.trans (drain _ ?_)
      intro x hx
      rw [List.mem_singleton.1 hx]
      exact .closeFiles _
    · exact refl s
  · exact refl s

theorem discardManager (s : State) : Calm task s s.discardManager := by
  unfold State.discardManager
  split
  · exact refl s
  · exact of_subset rfl rfl (by simp) rfl

theorem discardMount (s : State) : Calm task s s.discardMount := by
  unfold State.discardMount
  split
  · exact refl s
  · exact push_calm s (by simp [Task.calm])

/-! ## Time and replies -/

theorem elapse (s : State) (time : Nat) : Calm task s (s.elapse time) := by
  unfold State.elapse
  split
  · split
    · exact aside rfl rfl rfl rfl
    · rename_i timer _
      have moved : Calm task s
          { s with timers := s.timers.stop timer.request, clock := max s.clock timer.deadline } :=
        aside rfl rfl rfl rfl
      dsimp only
      split
      · exact moved.trans (push_calm _ (by simp [Task.calm]))
      · exact moved.trans ((push_calm _ (by simp [Task.calm])).trans (timeOut _ _))
  · exact refl s

theorem polled (s : State) (word : Word) : Calm task s (s.polled word) :=
  (modifyChannel s _).trans (reply _ _ _)

/-- Routing a message is calm unless it brings a part to a request that is there. -/
theorem poll (s : State)
    (h : ∀ link message rest p reply, s.channel? = some link → link.inbox = message :: rest →
      s.ledger.find? message.requestId = some p → message.delivery ≠ .part reply) :
    Calm task s s.poll := by
  unfold State.poll
  cases hc : s.channel? with
  | none => exact refl s
  | some link =>
    dsimp only
    split
    · rename_i message rest hi
      split
      · have routed : Calm task s
            ((s.modifyChannel ({ · with inbox := rest })).note (.routing message.requestId)) :=
          (modifyChannel s _).trans (note _ _)
        refine (routed.trans (push_calm _ (by simp [Task.calm]))).trans (deliver _ _ _ ?_)
        intro p reply hp
        exact h link message rest p reply hc hi hp
      · exact ((modifyChannel s _).trans (note _ _)).trans (push_calm _ (by simp [Task.calm]))
    · have told : Calm task s
          ((s.note .providerHungUp).modifyChannel ({ · with toldOfHangUp := true })) :=
        (note s _).trans (modifyChannel _ _)
      split
      · exact push_calm s (by simp [Task.calm])
      · split
        · split
          · exact told.trans (push_calm _ (by simp [Task.calm]))
          · exact (told.trans (note _ _)).trans (push_calm _ (by simp [Task.calm]))
        · exact told.trans (push_calm _ (by simp [Task.calm]))

theorem grant (s : State) (call : Call) (request : RequestKey) :
    Calm task s (s.grant call request) := by
  have stored : Calm task s { s with slots := s.slots ++ [request] } := aside rfl rfl rfl rfl
  exact stored.trans (reply _ _ _)

/-! ## Calls -/

theorem withManager {serve : State} {call : Call} (h : s.managerHeld → Calm task s serve) :
    Calm task s (s.withManager call serve) := by
  unfold State.withManager
  split
  · exact h ‹_›
  · exact reply s _ _

theorem withMount {serve : Mount → State} {call : Call} (h : ∀ m, Calm task s (serve m)) :
    Calm task s (s.withMount call serve) := by
  unfold State.withMount
  split
  · exact reply s _ _
  · exact h _

theorem push_ending (s : State) (call : Call) (answer : Answer) :
    Calm task s (s.push (ending call answer)) :=
  push_calm s (by simp [ending, Task.calm])

theorem abort (s : State) (call : Call) (p : Option Pending) : Calm task s (s.abort call p) := by
  unfold State.abort
  split
  · exact reply s _ _
  · exact (push_ending s _ _).trans (finishNow _ _ _)

theorem send (s : State) (message : Incoming) : Calm task s (s.send message).1 := by
  unfold State.send
  split
  · exact refl s
  · split
    · exact refl s
    · split
      · exact refl s
      · split
        · exact refl s
        · exact modifyChannel s _

theorem serveChannel (s : State) (call : Call) (link : ChannelLink) :
    Calm task s (s.serveChannel call link) := by
  unfold State.serveChannel
  split
  · split
    · exact (modifyChannel s _).trans (reply _ _ _)
    · exact reply s _ _
  · exact (modifyChannel s _).trans (reply _ _ _)
  · exact (modifyChannel s _).trans (reply _ _ _)
  · split
    · exact (modifyChannel s _).trans (push_calm _ (by simp [Task.calm]))
    · exact reply s _ _
  · split
    · exact (modifyChannel s _).trans (reply _ _ _)
    · exact reply s _ _
  · exact refl s

theorem again (s : State) (call : Call) (self : RequestId) :
    Calm task s (s.push [.issue call self]) :=
  push_calm s (by simp [Task.calm])

theorem servePool (s : State) (call : PoolCall) (self : RequestId) :
    Calm task s (s.issue (.pool call) self) := by
  rw [State.issue]
  split
  · exact again s _ self
  · rename_i pool answer _
    refine .trans (t := s.setHeldPool pool) ?_ (reply _ _ _)
    rw [State.setHeldPool]
    split <;> exact aside rfl rfl rfl rfl

/-- Calls but those that may register a request or deliver a part are calm. -/
theorem issue (s : State) (call : Call) (self : RequestId)
    (create : ∀ kind timeout streams tag onSuccess onError onPart,
      call ≠ .create kind timeout streams tag onSuccess onError onPart)
    (operate : ∀ operation tag followUp, call ≠ .operate operation tag followUp)
    (part : ∀ ref reply, call ≠ .deliver ref (.part reply)) :
    Calm task s (s.issue call self) := by
  cases call with
  | pool call => exact servePool s call self
  | create => exact (create _ _ _ _ _ _ _ rfl).elim
  | operate => exact (operate _ _ _ rfl).elim
  | markDelivered ref =>
    exact withManager fun _ => (push_ending s _ _).trans (markDelivered _ _)
  | deliver ref delivery =>
    refine withManager fun _ => (push_ending s _ _).trans (deliver _ _ _ ?_)
    rintro p reply - rfl
    exact part ref reply rfl
  | timeOut ref =>
    refine withManager fun _ => ?_
    split
    · exact reply s _ _
    · exact (push_ending s _ _).trans (timeOut _ _)
  | abort ref => exact withManager fun _ => abort s _ _
  | contains ref | count | isEmpty => exact withManager fun _ => reply s _ _
  | stage ref =>
    refine withManager fun _ => ?_
    split <;> exact reply s _ _
  | shutDownRequests =>
    refine withManager fun _ => drain s ?_
    have calm : ∀ x ∈ ending .shutDownRequests (.count s.ledger.size), x.calm := by
      simp [ending, Task.calm]
    exact fun x hx => .calm (calm x hx)
  | abortSlot slot =>
    rw [State.issue]
    split
    · exact reply s _ _
    · exact abort s _ _
  | slotPending slot =>
    rw [State.issue]
    split <;> exact reply s _ _
  | managerSize => exact reply s _ _
  | observe name hooks =>
    refine withManager fun _ => .trans ?_ (reply _ _ _)
    exact aside rfl rfl rfl rfl
  | onFinish steps =>
    refine .trans (t := { s with finishScript := steps }) ?_ (reply _ _ _)
    exact aside rfl rfl rfl rfl
  | releaseManager =>
    rw [State.issue]
    split
    · refine .trans ?_ (push_ending _ _ _)
      exact aside rfl rfl rfl rfl
    · exact reply s _ _
  | shutDown => exact withMount fun _ => push_calm s (by simp [Task.calm])
  | file id =>
    refine withMount fun m => ?_
    split <;> exact reply s _ _
  | info => exact withMount fun _ => reply s _ _
  | shareMount =>
    refine withMount fun _ => .trans ?_ (reply _ _ _)
    exact modifyMount s fun _ => rfl
  | releaseMount =>
    rw [State.issue]
    split
    · exact reply s _ _
    · refine .trans (modifyMount s ?_) (push_calm _ ?_)
      · exact fun _ => rfl
      · simp [Task.calm]
  | keepManager =>
    refine withMount fun _ => .trans ?_ (reply _ _ _)
    exact aside rfl rfl rfl rfl
  | instruct => exact (modifyDirect s _).trans (reply _ _ _)
  | receive | stopListening | hangUp | pump | discardDriver =>
    rw [State.issue]
    split
    · exact reply s _ _
    · exact serveChannel s _ _
  | send message => exact (send s message).trans (reply _ _ _)
  | advance millis => exact push_calm s (by simp [Task.calm])

end Calm

end State

end FileRelay
