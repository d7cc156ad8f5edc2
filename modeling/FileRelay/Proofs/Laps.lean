import FileRelay.Proofs.Search
import FileRelay.Proofs.Debt

/-!
# Laps of the counter

The counter of an id pool moves past one value after the other, and comes to zero after the largest.
Unless somebody sets it, it does so only as ids are handed out, and it is left just past each of
them.  So between two times that the same id is handed out it has come back to where it stood, and
must have gone all the way round: it moved `2 ^ 32` times at least, whatever was freed and put in
use again meanwhile.

A run of a pool is a `Journey`, told by the ids handed out and by how often the counter moved for
each.  What the requests of a manager have to do with it is that each is registered under an id
handed out just then.  Hence, as long as the counter has not gone round, an id under which a request
was outstanding belongs to that request or to none.
-/

namespace FileRelay

/-- An id handed out, and how many values were looked at to find it: so often the counter moved. -/
structure Draw where
  id : UInt32
  looks : Nat
deriving DecidableEq, Repr

/-- How often the counter moved, all in all. -/
def travelled : List Draw → Nat
  | [] => 0
  | draw :: rest => draw.looks + travelled rest

theorem travelled_append (first second : List Draw) :
    travelled (first ++ second) = travelled first + travelled second := by
  induction first with
  | nil => simp [travelled]
  | cons draw rest ih => rw [List.cons_append, travelled, travelled, ih, Nat.add_assoc]

theorem travelled_single (draw : Draw) : travelled [draw] = draw.looks := rfl

namespace IdPool

variable {pool after mid last : IdPool} {id : UInt32} {looks : Nat} {d e : Draw}
  {draws more before between rest : List Draw}

/-- A run of a pool: ids are handed out, put in use again and freed, in any order, and the counter
is not set.  The ids handed out are listed, oldest first. -/
inductive Journey (pool : IdPool) : List Draw → IdPool → Prop
  | start : Journey pool [] pool
  | next {draws : List Draw} {mid after : IdPool} {looks : Nat} {id : UInt32}
      (h : Journey pool draws mid) (answers : mid.next? = some (id, after))
      (search : mid.Search looks id after) : Journey pool (draws ++ [⟨id, looks⟩]) after
  | reserve {draws : List Draw} {mid after : IdPool} {id : UInt32} (h : Journey pool draws mid)
      (answers : mid.reserve? id = some after) : Journey pool draws after
  | release {draws : List Draw} {mid : IdPool} (h : Journey pool draws mid) (id : UInt32) :
      Journey pool draws (mid.release id)

namespace Journey

theorem trans (h : pool.Journey draws mid) (k : mid.Journey more last) :
    pool.Journey (draws ++ more) last := by
  induction k with
  | start =>
    rw [List.append_nil]
    exact h
  | next _ answers search ih =>
    rw [← List.append_assoc]
    exact .next ih answers search
  | reserve _ answers ih => exact .reserve ih answers
  | release _ id ih => exact .release ih id

/-- A journey may be cut at any id that was handed out. -/
theorem split (h : pool.Journey (before ++ d :: rest) last) :
    ∃ x y, pool.Journey before x ∧ x.next? = some (d.id, y) ∧ x.Search d.looks d.id y ∧
      y.Journey rest last := by
  generalize hdraws : before ++ d :: rest = draws at h
  induction h generalizing rest with
  | start => simp at hdraws
  | @next draws mid after looks id h answers search ih =>
    rcases List.eq_nil_or_concat rest with rfl | ⟨init, final, rfl⟩
    · obtain ⟨rfl, hd⟩ := List.append_inj' hdraws rfl
      cases hd
      exact ⟨mid, after, h, answers, search, .start⟩
    · rw [List.concat_eq_append, ← List.cons_append, ← List.append_assoc] at hdraws
      obtain ⟨rfl, hfinal⟩ := List.append_inj' hdraws rfl
      cases hfinal
      obtain ⟨x, y, toX, answersX, searchX, fromY⟩ := ih rfl
      rw [List.concat_eq_append]
      exact ⟨x, y, toX, answersX, searchX, .next fromY answers search⟩
  | reserve _ answers ih =>
    obtain ⟨x, y, toX, answersX, searchX, fromY⟩ := ih hdraws
    exact ⟨x, y, toX, answersX, searchX, .reserve fromY answers⟩
  | release _ id ih =>
    obtain ⟨x, y, toX, answersX, searchX, fromY⟩ := ih hdraws
    exact ⟨x, y, toX, answersX, searchX, .release fromY id⟩

end Journey

/-! ## Where the counter stands -/

/-- The counter is left just past the id handed out, and has moved at least once. -/
theorem Search.next_eq (h : pool.Search looks id after) :
    after.next = id + 1 ∧ after.next = pool.next + UInt32.ofNat looks ∧ 0 < looks := by
  obtain ⟨k, -, rfl, rfl, rfl⟩ := search_iff.1 h
  refine ⟨rfl, ?_, Nat.succ_pos k⟩
  rw [candidate, add_ofNat_succ, UInt32.add_assoc, UInt32.add_assoc, UInt32.add_comm 1]

theorem next_of_reserve? (h : pool.reserve? id = some after) : after.next = pool.next := by
  rw [reserve?] at h
  split at h
  · cases h
    rfl
  · cases h

theorem Journey.next_eq (h : pool.Journey draws after) :
    after.next = pool.next + UInt32.ofNat (travelled draws) := by
  induction h with
  | start => simp [travelled]
  | next _ _ search ih =>
    rw [search.next_eq.2.1, ih, travelled_append, travelled_single, UInt32.ofNat_add,
      UInt32.add_assoc]
  | reserve _ answers ih => rw [next_of_reserve? answers, ih]
  | release _ _ ih => exact ih

/-- A counter that moved and is back has gone all the way round. -/
theorem lap_le {start : UInt32} {n : Nat} (moved : 0 < n) (back : start + UInt32.ofNat n = start) :
    2 ^ 32 ≤ n := by
  have zero : UInt32.ofNat n = 0 := by
    rw [← UInt32.add_right_inj start, back, UInt32.add_zero]
  by_contra short
  have value := congrArg UInt32.toNat zero
  rw [UInt32.toNat_ofNat_of_lt' (by simpa using short), UInt32.toNat_zero] at value
  omega

/-- From where an id has just been handed out to where it is handed out again the counter goes all
the way round. -/
theorem Journey.lap_le_of_mem (h : pool.Journey draws last) (counter : pool.next = id + 1)
    (mem : id ∈ draws.map (·.id)) : 2 ^ 32 ≤ travelled draws := by
  obtain ⟨d, hd, rfl⟩ := List.mem_map.1 mem
  obtain ⟨before, rest, rfl⟩ := List.append_of_mem hd
  obtain ⟨x, y, toX, answers, search, -⟩ := h.split
  have toY : pool.Journey (before ++ [d]) y := toX.next answers search
  have back := toY.next_eq
  obtain ⟨past, -, moved⟩ := search.next_eq
  rw [past, counter] at back
  have lap : 2 ^ 32 ≤ travelled (before ++ [d]) := by
    refine lap_le ?_ back.symm
    rw [travelled_append, travelled_single]
    omega
  rw [List.append_cons, travelled_append (before ++ [d])]
  omega

/-- Two times that the same id is handed out are a lap apart. -/
theorem Journey.lap_le (h : pool.Journey (before ++ d :: (between ++ e :: rest)) last)
    (same : d.id = e.id) : 2 ^ 32 ≤ travelled (between ++ [e]) := by
  obtain ⟨x, y, -, -, search, fromY⟩ := h.split
  obtain ⟨z, w, toZ, answers, found, -⟩ := fromY.split
  have again : y.Journey (between ++ [e]) w := toZ.next answers found
  exact again.lap_le_of_mem search.next_eq.1 (by simp [same])

/-- Draws whose ids are not all different have two of the same id. -/
theorem exists_same_of_not_nodup (h : ¬ (draws.map (·.id)).Nodup) :
    ∃ before d between e rest, draws = before ++ d :: (between ++ e :: rest) ∧ d.id = e.id := by
  induction draws with
  | nil => simp at h
  | cons d draws ih =>
    rw [List.map_cons, List.nodup_cons, not_and_or, not_not] at h
    rcases h with mem | nodup
    · obtain ⟨e, he, same⟩ := List.mem_map.1 mem
      obtain ⟨between, rest, rfl⟩ := List.append_of_mem he
      exact ⟨[], d, between, e, rest, rfl, same.symm⟩
    · obtain ⟨before, d', between, e, rest, rfl, same⟩ := ih nodup
      exact ⟨d :: before, d', between, e, rest, rfl, same⟩

/-- Within a lap no id is handed out twice. -/
theorem Journey.nodup_of_le (h : pool.Journey draws last) (lap : travelled draws ≤ 2 ^ 32) :
    (draws.map (·.id)).Nodup := by
  by_contra twice
  obtain ⟨before, d, between, e, rest, rfl, same⟩ := exists_same_of_not_nodup twice
  obtain ⟨x, y, -, -, search, -⟩ := h.split
  have moved := search.next_eq.2.2
  have apart := h.lap_le same
  rw [List.append_cons before, List.append_cons between, travelled_append, travelled_append,
    travelled_append, travelled_single] at lap
  omega

/-! ## Other things that are done to a pool -/

theorem Journey.releaseAll (h : pool.Journey draws mid) (ids : List UInt32) :
    pool.Journey draws (mid.releaseAll ids) := by
  induction ids generalizing mid with
  | nil => exact h
  | cons id ids ih => exact ih (h.release id)

theorem exists_search (h : pool.next? = some (id, after)) :
    ∃ looks, pool.Search looks id after := by
  obtain ⟨looks, -, search⟩ := next?_eq_some.1 h
  exact ⟨looks, search⟩

theorem exists_journey_nextMany (pool : IdPool) (n : Nat) :
    ∃ draws, pool.Journey draws (pool.nextMany n).2 := by
  induction n generalizing pool with
  | zero => exact ⟨[], .start⟩
  | succ n ih =>
    rw [nextMany]
    cases hn : pool.next? with
    | none => exact ⟨[], .start⟩
    | some drawn =>
      obtain ⟨id, after⟩ := drawn
      obtain ⟨looks, search⟩ := exists_search hn
      obtain ⟨draws, journey⟩ := ih after
      exact ⟨_, Journey.trans (.next .start hn search) journey⟩

/-- Every call is served by a journey, unless it sets the counter. -/
theorem exists_journey_serve? {call : PoolCall} {self : RequestId} {answer : Answer}
    (keeps : ∀ n, call ≠ .rewind n) (served : call.serve? pool self = some (after, answer)) :
    ∃ draws, pool.Journey draws after := by
  cases call with
  | next =>
    rw [PoolCall.serve?, Option.map_eq_some_iff] at served
    obtain ⟨⟨id, drawn⟩, hn, he⟩ := served
    cases he
    obtain ⟨looks, search⟩ := exists_search hn
    exact ⟨_, .next .start hn search⟩
  | nextMany count =>
    rw [PoolCall.serve?] at served
    dsimp only at served
    split at served
    · cases served
      exact exists_journey_nextMany pool count
    · cases served
  | reserve ref =>
    rw [PoolCall.serve?] at served
    split at served
    · rename_i hr
      cases served
      exact ⟨[], .reserve .start hr⟩
    · cases served
      exact ⟨[], .start⟩
  | release ref =>
    cases served
    exact ⟨[], .release .start _⟩
  | isLive | liveCount =>
    cases served
    exact ⟨[], .start⟩
  | rewind n => exact (keeps n rfl).elim

end IdPool

/-- A file is recorded under an id handed out, and the id of its opener put in use again. -/
theorem OpenFiles.exists_journey_add? {table files : OpenFiles} {pool after : IdPool}
    {path : String} {mode : OpenMode} {openedBy : RequestId} {id : HandleId}
    (added : table.add? pool path mode openedBy = some (id, files, after)) :
    ∃ draws, pool.Journey draws after := by
  rw [add?] at added
  cases hn : pool.next? with
  | none => rw [hn] at added; cases added
  | some drawn =>
    obtain ⟨n, taken⟩ := drawn
    rw [hn] at added
    obtain ⟨looks, search⟩ := IdPool.exists_search hn
    have drew : pool.Journey [⟨n, looks⟩] taken := .next .start hn search
    dsimp only at added
    split at added
    · rename_i hr
      cases added
      exact ⟨_, drew.reserve hr⟩
    · cases added
      exact ⟨_, drew⟩

namespace State

variable {s₀ b s t u v w x y : State} {task : Task} {rest : List Task} {p q : Pending}
  {draws more : List Draw}

/-! ## The ids that a step hands out -/

/-- The ids that a step hands out: the pool becomes what it is after handing them out, and each
request that enters the ledger has one of them. -/
structure Hands (s t : State) (draws : List Draw) : Prop where
  journey : s.pool.Journey draws t.pool
  entered : ∀ p ∈ t.ledger.entries,
    (∃ q ∈ s.ledger.entries, q.key = p.key) ∨ p.id.val ∈ draws.map (·.id)

namespace Hands

theorem trans (h : Hands s t draws) (k : Hands t u more) : Hands s u (draws ++ more) := by
  refine ⟨h.journey.trans k.journey, ?_⟩
  intro p hp
  rw [List.map_append, List.mem_append]
  rcases k.entered p hp with ⟨q, hq, own⟩ | new
  · have id : q.id = p.id := congrArg RequestKey.id own
    rcases h.entered q hq with ⟨r, hr, own'⟩ | new
    · exact .inl ⟨r, hr, own'.trans own⟩
    · exact .inr (.inl (id ▸ new))
  · exact .inr (.inr new)

/-- No request enters the ledger. -/
theorem of_subset (journey : s.pool.Journey draws t.pool)
    (entries : ∀ p ∈ t.ledger.entries, p ∈ s.ledger.entries) : Hands s t draws :=
  ⟨journey, fun p hp => .inl ⟨p, entries p hp, rfl⟩⟩

theorem of_eq (pool : t.pool = s.pool) (entries : ∀ p ∈ t.ledger.entries, p ∈ s.ledger.entries) :
    Hands s t [] :=
  of_subset (pool ▸ .start) entries

end Hands

/-- Whether the next task sets the counter of the manager's id pool. -/
def SetsCounter (s : State) : Prop :=
  s.callerPool = none ∧ ∃ n self rest, s.agenda = .issue (.pool (.rewind n)) self :: rest

theorem Move.hands (h : Move b task s t)
    (keeps : s.callerPool = none → ∀ n self, task ≠ .issue (.pool (.rewind n)) self) :
    ∃ draws, Hands s t draws := by
  cases h with
  | keep h =>
    obtain ⟨f, hf, entries⟩ := h.entries
    refine ⟨[], h.pool ▸ .start, fun p hp => .inl ?_⟩
    rw [entries, List.mem_map] at hp
    obtain ⟨q, hq, rfl⟩ := hp
    exact ⟨q, hq, (hf q).key.symm⟩
  | @register p pool held owner up drawn serial =>
    obtain ⟨looks, search⟩ := IdPool.exists_search drawn
    refine ⟨[⟨p.id.val, looks⟩], .next .start drawn search, fun q hq => ?_⟩
    rcases List.mem_append.1 hq with hq | hq
    · exact .inl ⟨q, (List.mem_filter.1 hq).1, rfl⟩
    · rw [List.mem_singleton.1 hq]
      exact .inr (by simp)
  | pull =>
    exact ⟨[], .of_subset (.release .start _) fun q hq => (List.mem_filter.1 hq).1⟩
  | drain =>
    refine ⟨[], .of_subset (IdPool.Journey.start.releaseAll _) fun q hq => ?_⟩
    cases hq
  | mark => exact ⟨[], .of_eq rfl fun _ hp => hp⟩
  | add hm added =>
    obtain ⟨draws, journey⟩ := OpenFiles.exists_journey_add? added
    exact ⟨draws, .of_subset journey fun _ hp => hp⟩
  | remove hm removed =>
    obtain ⟨-, -, -, hpool⟩ := OpenFiles.remove?_spec removed
    refine ⟨[], .of_subset ?_ fun _ hp => hp⟩
    rw [hpool]
    exact IdPool.Journey.start.releaseAll _
  | @clear m hm =>
    refine ⟨[], .of_subset ?_ fun _ hp => hp⟩
    show s.pool.Journey [] (m.files.releaseAll s.pool)
    rw [OpenFiles.releaseAll_eq]
    exact IdPool.Journey.start.releaseAll _
  | @share pool call self answer asked shared served =>
    obtain ⟨draws, journey⟩ := IdPool.exists_journey_serve?
      (fun n hn => keeps shared n self (hn ▸ asked)) served
    exact ⟨draws, .of_subset journey fun _ hp => hp⟩

theorem Change.hands (h : Change b task s t)
    (keeps : s.callerPool = none → ∀ n self, task ≠ .issue (.pool (.rewind n)) self) :
    ∃ draws, Hands s t draws := by
  induction h with
  | refl => exact ⟨[], .of_eq rfl fun _ hp => hp⟩
  | @tail u v hu hm ih =>
    obtain ⟨draws, hands⟩ := ih
    have shared : u.callerPool.isSome = s.callerPool.isSome := Change.shared_eq hu
    obtain ⟨more, hands'⟩ := hm.hands fun hc => keeps (by
      rw [hc] at shared
      exact Option.isNone_iff_eq_none.1 (by simpa using shared))
    exact ⟨_, hands.trans hands'⟩

theorem Effect.hands (h : Effect b task s t)
    (keeps : s.callerPool = none → ∀ n self, task ≠ .issue (.pool (.rewind n)) self) :
    ∃ draws, Hands s t draws := by
  cases h with
  | change _ _ h => exact h.hands keeps
  | @settle _ _ u v _ h pass k =>
    obtain ⟨draws, first⟩ := h.hands keeps
    obtain ⟨ledger, pool, shared, -⟩ := pass.frame
    have passed : Hands u v [] := .of_eq pool (by rw [ledger]; exact fun _ hp => hp)
    have same := h.shared_eq
    obtain ⟨more, second⟩ := k.hands fun hc => keeps (by
      rw [← shared, hc] at same
      exact Option.isNone_iff_eq_none.1 (by simpa using same.symm))
    exact ⟨_, (first.trans passed).trans second⟩
  | keepManager | keepMount | dropMount => exact ⟨[], .of_eq rfl fun _ hp => hp⟩
  | dropManager => exact ⟨[], .of_eq rfl fun _ hp => (List.not_mem_nil hp).elim⟩

/-! ## Where the counter stands once a request has been registered -/

/-- A request is registered under the id handed out, or ledger and pool are as they were. -/
def Registers (s t : State) : Prop :=
  t.ledger = s.ledger ∧ t.pool = s.pool ∨
    ∃ p : Pending, s.pool.next? = some (p.id.val, t.pool) ∧ t.ledger = s.ledger.insert p

theorem create_registers (s : State) (call : Call) (self : RequestId) (kind : Request.Kind)
    (timeout : Option Nat) (streams : Bool) (owner : Owner) :
    Registers s (s.create call self kind timeout streams owner) := by
  unfold State.create
  split
  · exact .inl ⟨rfl, rfl⟩
  · rename_i u key hreg
    obtain ⟨p, -, -, -, drawn, ledger, -⟩ := register?_spec hreg
    exact .inr ⟨p, drawn, ledger⟩

theorem operate_registers (s : State) (call : Call) (self : RequestId) (operation : Operation)
    (tag : Option String) (followUp : List Call) :
    Registers s (s.operate call self operation tag followUp) := by
  unfold State.operate
  split
  · exact .inl ⟨rfl, rfl⟩
  · split
    · exact .inl ⟨rfl, rfl⟩
    · dsimp only
      split
      · exact .inl ⟨rfl, rfl⟩
      · rename_i u key hreg
        obtain ⟨p, -, -, -, drawn, ledger, -⟩ := register?_spec hreg
        refine .inr ⟨p, ?_, ?_⟩
        · cases operation <;> exact drawn
        · cases operation <;> exact ledger

theorem registers_of_owner? {owner : Owner} (named : task.owner? = some owner) :
    Registers s (s.perform task) := by
  unfold Task.owner? at named
  split at named
  · rw [State.perform]
    simp only [State.issue, State.withManager]
    split
    · exact create_registers ..
    · exact .inl ⟨rfl, rfl⟩
  · exact operate_registers ..
  · cases named

/-- A step that registers a request hands out its id, and does nothing else to the pool. -/
theorem Bears.drawn (h : v.Bears w task p) : v.pool.next? = some (p.id.val, w.pool) := by
  obtain ⟨owner, named, -⟩ := h.owner
  obtain ⟨rest, ha⟩ := h.first
  have step := h.step
  rw [step_of_agenda ha, Option.some.injEq] at step
  have registers := registers_of_owner? (s := { v with agenda := rest }) named
  rw [step] at registers
  obtain ⟨mem, -⟩ := mem_of_trace (congrArg Trace.outstanding h.after)
  have new : p ∉ v.ledger.entries := fun hp => not_mem_of_trace (by rw [h.before]) hp rfl
  rcases registers with ⟨ledger, -⟩ | ⟨q, drawn, ledger⟩
  · rw [ledger] at mem
    exact (new mem).elim
  · rw [ledger] at mem
    rcases List.mem_append.1 mem with mem | mem
    · exact (new (List.mem_filter.1 mem).1).elim
    · rw [List.mem_singleton.1 mem]
      exact drawn

/-! ## Runs in which nobody sets the counter -/

/-- How a run goes on while nobody sets the counter of the id pool. -/
inductive Advance (s : State) : State → Prop
  | work {t : State} (step : s.step = some t) (fair : ¬ s.Trespasses)
      (keeps : ¬ s.SetsCounter) : Advance s t
  | call (call : Call) (self : RequestId) : Advance s (s.push [.issue call self])

/-- What a run may come to from a state in which nobody sets the counter. -/
def Forward : State → State → Prop := Relation.ReflTransGen Advance

/-- A run in which nobody sets the counter, told by the ids handed out on it. -/
inductive Onward (s : State) : List Draw → State → Prop
  | start : Onward s [] s
  | go {draws more : List Draw} {t u : State} (h : Onward s draws t) (next : Advance t u)
      (hands : Hands t u more) : Onward s (draws ++ more) u

theorem Advance.next (h : Advance s t) : Next s t := by
  cases h with
  | work step fair => exact .work step fair
  | call call self => exact .call call self

theorem Advance.exists_hands (h : Advance s t) (hs : s.Sane) : ∃ draws, Hands s t draws := by
  cases h with
  | work step fair keeps =>
    obtain ⟨task, rest, ha, effect⟩ := hs.upkeep.exists_effect fair step
    have other : s.callerPool = none → ∀ n self, task ≠ .issue (.pool (.rewind n)) self := by
      rintro shared n self rfl
      exact keeps ⟨shared, n, self, rest, ha⟩
    obtain ⟨draws, journey, entered⟩ := effect.hands other
    exact ⟨draws, journey, entered⟩
  | call call self => exact ⟨[], .of_eq rfl fun _ hp => hp⟩

theorem Forward.reaches (h : Forward s t) : Reaches s t := by
  induction h with
  | refl => exact .refl s
  | tail _ next ih => exact ih.tail next.next

/-- Every run in which nobody sets the counter may be told by the ids handed out. -/
theorem Forward.exists_onward (h : Forward s t) (hs : s.Sane) : ∃ draws, Onward s draws t := by
  induction h with
  | refl => exact ⟨[], .start⟩
  | tail hst next ih =>
    obtain ⟨draws, onward⟩ := ih
    obtain ⟨more, hands⟩ := next.exists_hands ((Forward.reaches hst).sane hs)
    exact ⟨_, onward.go next hands⟩

theorem Onward.reaches (h : Onward s draws t) : Reaches s t := by
  induction h with
  | start => exact .refl s
  | go _ next _ ih => exact ih.tail next.next

theorem Onward.hands (h : Onward s draws t) : Hands s t draws := by
  induction h with
  | start => exact .of_eq rfl fun _ hp => hp
  | go _ _ hands ih => exact ih.trans hands

/-- Until the counter has gone round once, what is outstanding under the id of a request is that
request. -/
theorem Onward.eq_of_id (h : Onward w draws u) (bears : v.Bears w task p) (hv : v.Sane)
    (lap : travelled draws < 2 ^ 32) (mem : q ∈ u.ledger.entries) (id : q.id = p.id) :
    q.key = p.key := by
  rcases h.hands.entered q mem with ⟨r, hr, own⟩ | drawn
  · have there := (mem_of_trace (congrArg Trace.outstanding bears.after)).1
    have same : r.id = q.id := congrArg RequestKey.id own
    rw [← own, (bears.next.sane hv).accounted.eq_of_id there hr (same.trans id)]
  · -- The counter stood just past the id when the request had been registered.
    obtain ⟨looks, -, search⟩ := IdPool.next?_eq_some.1 bears.drawn
    rw [id] at drawn
    have round := h.hands.journey.lap_le_of_mem search.next_eq.1 drawn
    omega

/-! ## Early reuse -/

/-- What is true of the ids handed out on a run of a pool. -/
structure Spaced (pool : IdPool) (draws : List Draw) : Prop where
  /-- From the first of two times that an id is handed out to the second the counter moves all the
  way round. -/
  apart : ∀ before d between e rest, draws = before ++ d :: (between ++ e :: rest) →
    d.id = e.id → 2 ^ 32 ≤ travelled (between ++ [e])
  /-- Within a lap all of them are different. -/
  distinct : travelled draws ≤ 2 ^ 32 → (draws.map (·.id)).Nodup
  /-- Each was drawn from a pool that the run had come to by then. -/
  drawn : ∀ before d rest, draws = before ++ d :: rest →
    ∃ mid after, pool.Journey before mid ∧ mid.next? = some (d.id, after)
  /-- Whatever pool the run has come to: an id that is drawn from it is neither zero nor in use
  just before. -/
  fresh : ∀ before mid id after, pool.Journey before mid → mid.next? = some (id, after) →
    id ≠ 0 ∧ id ∉ mid.live

/-- For every pool and every run of it on which the counter is not set, whatever is freed and put
in use again meanwhile: an id is handed out again only after the counter has moved all the way
round, so that the ids handed out within a lap are all different, and each of them is neither zero
nor in use in the pool that it is drawn from.

For every run of a request manager or mount, and every request registered on it: until the counter
has gone round after that, no other request is outstanding under its id, so that a reply which
comes when the request is over, or comes once more, is dropped. -/
theorem id_reuse_takes_lap :
    (∀ (pool last : IdPool) (draws : List Draw), pool.Journey draws last → Spaced pool draws) ∧
    ∀ (s₀ v w u : State) (task : Task) (p : Pending), Start s₀ → Reaches s₀ v →
      v.Bears w task p → Forward w u →
      (∃ draws, w.Onward draws u) ∧
      ∀ draws, w.Onward draws u → travelled draws < 2 ^ 32 →
        (∀ q, u.ledger.find? p.id = some q → q.key = p.key) ∧
        (u.ledger.findExact? p.key = none →
          ∀ delivery, ∃ notice, u.deliver p.id delivery = u.note notice) := by
  constructor
  · intro pool last draws journey
    refine ⟨?_, journey.nodup_of_le, ?_, ?_⟩
    · rintro before d between e rest rfl same
      exact journey.lap_le same
    · rintro before d rest rfl
      obtain ⟨x, y, toX, answers, -, -⟩ := journey.split
      exact ⟨x, y, toX, answers⟩
    · intro before mid id after _ answers
      obtain ⟨nonzero, unused, -⟩ := IdPool.next?_spec answers
      exact ⟨nonzero, unused⟩
  · intro s₀ v w u task p start reached bears forward
    have sane := reached.sane start.sane
    refine ⟨forward.exists_onward (bears.next.sane sane), fun draws onward lap => ?_⟩
    have own : ∀ q, u.ledger.find? p.id = some q → q.key = p.key := by
      intro q found
      exact onward.eq_of_id bears sane lap (List.mem_of_find?_eq_some found)
        (by simpa using List.find?_some found)
    refine ⟨own, fun gone delivery => ?_⟩
    have none : u.ledger.find? p.id = none := by
      cases found : u.ledger.find? p.id with
      | none => rfl
      | some q =>
        have absent := List.find?_eq_none.1 gone q (List.mem_of_find?_eq_some found)
        simp [own q found] at absent
    unfold State.deliver
    rw [none]
    cases delivery <;> exact ⟨_, rfl⟩

/-- A pool hands out the largest id, which is freed, and goes on past zero and past the id in use.
A manager's request is over, and another has come meanwhile: a late reply to the first is
dropped. -/
theorem id_reuse_takes_lap_of_late_reply :
    Spaced ⟨4294967295, [1]⟩ [⟨4294967295, 1⟩, ⟨2, 3⟩] ∧
    ∃ u : State, u.ledger.entries.map (·.id) = [⟨2⟩] ∧
      ∀ delivery, ∃ notice, u.deliver ⟨1⟩ delivery = u.note notice := by
  constructor
  · have first : IdPool.Journey ⟨4294967295, [1]⟩ [⟨4294967295, 1⟩] ⟨0, [4294967295, 1]⟩ :=
      .next .start rfl (.hit rfl)
    have freed : IdPool.Journey ⟨4294967295, [1]⟩ [⟨4294967295, 1⟩] ⟨0, [1]⟩ :=
      first.release 4294967295
    exact id_reuse_takes_lap.1 _ _ _ (.next freed rfl (.skip rfl (.skip rfl (.hit rfl))))
  · let create : Call := .create .getMetadata none false none [] [] []
    let v : State := (ofManager true true).push [.issue create ⟨0⟩]
    let w : State := State.issue { v with agenda := [] } create ⟨0⟩
    let success : Call := .deliver (.given ⟨1⟩) (.success .nothing)
    let x : State := w.push [.issue success ⟨0⟩]
    let y : State := State.issue { x with agenda := w.agenda } success ⟨0⟩
    let u : State := State.issue y create ⟨0⟩
    let p : Pending :=
      { id := ⟨1⟩, serial := 1, kind := .getMetadata, timeout := none, deadline := none,
        accepting := false, owner := .client none [] [] [] }
    have advance : ∀ s t : State, s.step = some t → s.callerPool.isSome → Advance s t := by
      intro s t step own
      have shared : s.callerPool ≠ none := Option.isSome_iff_ne_none.1 own
      exact .work step (fun h => shared h.1) (fun h => shared h.1)
    have toW : Advance v w := advance v w rfl rfl
    have bears : v.Bears w (.issue create ⟨0⟩) p :=
      ⟨toW.next, rfl, ⟨_, rfl⟩, ⟨_, rfl, .refl _⟩, rfl, rfl⟩
    have toX : Advance w x := .call success ⟨0⟩
    have toY : Advance x y := advance x y rfl rfl
    have asked : Advance y (y.push [.issue create ⟨0⟩]) := .call create ⟨0⟩
    have toU : Advance (y.push [.issue create ⟨0⟩]) u := advance _ u rfl rfl
    have replied : Hands x y [] :=
      .of_subset (.release .start 1) fun _ hq => (List.mem_filter.1 hq).1
    have drawn : Hands (y.push [.issue create ⟨0⟩]) u [⟨2, 1⟩] := by
      refine ⟨.next .start rfl (.hit rfl), fun q hq => .inr ?_⟩
      rw [List.mem_singleton.1 hq]
      exact List.mem_cons_self
    have onward : w.Onward [⟨2, 1⟩] u :=
      (((Onward.start.go toX (.of_eq rfl fun _ hq => hq)).go toY replied).go asked
        (.of_eq rfl fun _ hq => hq)).go toU drawn
    have forward : Forward w u :=
      (((Relation.ReflTransGen.single toX).tail toY).tail asked).tail toU
    have reached : Reaches (ofManager true true) v := .tail (.refl _) (.call create ⟨0⟩)
    have dropped := (id_reuse_takes_lap.2 _ v w u _ p (.manager true true _) reached bears
      forward).2 _ onward (by decide)
    exact ⟨u, rfl, dropped.2 rfl⟩

end State

end FileRelay
