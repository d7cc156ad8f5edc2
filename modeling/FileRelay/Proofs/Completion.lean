import FileRelay.Proofs.Course

/-!
# Callbacks are invoked once

The callback of a request is invoked at most once in a run, never while the request is
outstanding, and exactly once by the time that nothing is under way any more.  What it is
given is what the one step says that took the request out of the ledger.  This holds
however calls nest: a run may make any call between any two steps.
-/

namespace FileRelay

variable {s₀ s u : State} {key : RequestKey} {p : Pending}

namespace State

/-- What becomes of a request that is outstanding at some time in a run. -/
theorem life_of_findExact? (start : Start s₀) (reached : Reaches s₀ s)
    (created : s.ledger.findExact? key = some p) (later : Reaches s u) :
    p.key = key ∧ key.serial < s.ledger.nextSerial ∧ Life s p u := by
  obtain ⟨mem, own⟩ := mem_of_findExact? created
  obtain ⟨known, entry⟩ := (reached.fate start.sane (start.fate p.key)).of_mem mem
  exact ⟨own, own ▸ known, later.life (reached.sane start.sane) known entry⟩

/-- For every run and every request that was ever outstanding in it: its callback is
invoked at most once, and not while it is outstanding.  When nothing is under way, the
request is outstanding with no invocation or out of the ledger with exactly one, as long
as there is the manager to ask.  The invocation is for the request itself, and gives what
the one step says that took the request out of the ledger, to which it never returns. -/
theorem callback_invoked_once (start : Start s₀) (reached : Reaches s₀ s)
    (created : s.ledger.findExact? key = some p) (later : Reaches s u) :
    (u.callbacks key).length ≤ 1 ∧
    ((u.ledger.findExact? key).isSome → u.callbacks key = []) ∧
    (u.agenda = [] → u.managerAlive →
      (u.ledger.findExact? key).isSome ∧ u.callbacks key = [] ∨
        u.ledger.findExact? key = none ∧ ∃ event, u.callbacks key = [event]) ∧
    ∀ event ∈ u.callbacks key, ∃ v w q ending, Reaches s v ∧ v.Ends w q ending ∧ Reaches w u ∧
      p.Continues q ∧ event.Reports q ending ∧
      ∀ x, Reaches w x → x.ledger.findExact? key = none := by
  obtain ⟨rfl, known, life⟩ := life_of_findExact? start reached created later
  have sane := reached.sane start.sane
  rw [callbacks_eq, findExact?_eq]
  cases life with
  | outstanding same entry =>
    rw [entry]
    refine ⟨Nat.zero_le _, fun _ => rfl, fun _ _ => .inl ⟨rfl, rfl⟩, ?_⟩
    intro event he
    cases he
  | @settled v w q ending before ends after same left settled =>
    rw [settled.outstanding_eq_nil]
    have toW : Reaches s w := before.tail ends.next
    have gone : ∀ x, Reaches w x → x.ledger.findExact? p.key = none := by
      intro x hx
      rw [← same.key] at left known ⊢
      have known' := Nat.lt_of_lt_of_le known (toW.nextSerial_le sane)
      rw [findExact?_eq, (hx.settled (toW.sane sane) known' left).outstanding_eq_nil]
      rfl
    rcases settled.owed_or_paid with ⟨task, -, owed, paid⟩ | ⟨event, reports, owed, paid⟩
    · rw [paid]
      refine ⟨Nat.zero_le _, fun _ => rfl, ?_, ?_⟩
      · intro idle _
        rw [trace, idle] at owed
        cases owed
      · intro event he
        cases he
    · rw [paid]
      refine ⟨Nat.le_refl _, ?_, fun _ _ => .inr ⟨rfl, event, rfl⟩, ?_⟩
      · intro h
        cases h
      · intro other ho
        rw [List.mem_singleton.1 ho]
        exact ⟨v, w, q, ending, before, ends, after, same, reports, gone⟩
  | lost _ gone nothing =>
    rw [nothing]
    refine ⟨Nat.zero_le _, fun _ => rfl, ?_, ?_⟩
    · intro _ alive
      rw [gone] at alive
      cases alive
    · intro event he
      cases he

/-- A request is aborted, and its callback tries to abort it once more: it is told once. -/
theorem callback_invoked_once_on_abort :
    ∃ s u : State, Reaches (ofManager true true) s ∧ Reaches s u ∧
      (s.ledger.findExact? ⟨⟨1⟩, 1⟩).isSome ∧ u.ledger.findExact? ⟨⟨1⟩, 1⟩ = none ∧
      ∃ event, u.callbacks ⟨⟨1⟩, 1⟩ = [event] := by
  have run : ((ofManager true true).follow? (.call (.create .getMetadata none false none []
      [.abort .self] []) ⟨0⟩ :: List.replicate 3 .work)).any fun s =>
        (s.ledger.findExact? ⟨⟨1⟩, 1⟩).isSome &&
          (s.follow? (.call (.abort (.given ⟨1⟩)) ⟨0⟩ :: List.replicate 7 .work)).any fun u =>
            u.agenda.isEmpty && u.managerAlive && (u.ledger.findExact? ⟨⟨1⟩, 1⟩).isNone := by
    decide +kernel
  rw [Option.any_eq_true] at run
  obtain ⟨s, hs, run⟩ := run
  rw [Bool.and_eq_true, Option.any_eq_true] at run
  obtain ⟨created, u, hu, run⟩ := run
  rw [Bool.and_eq_true, Bool.and_eq_true, List.isEmpty_iff, Option.isNone_iff_eq_none] at run
  obtain ⟨⟨idle, alive⟩, none⟩ := run
  obtain ⟨p, hp⟩ := Option.isSome_iff_exists.1 created
  have reached := reaches_of_follow? hs
  have later := reaches_of_follow? hu
  refine ⟨s, u, reached, later, created, none, ?_⟩
  rcases (callback_invoked_once (.manager true true _) reached hp later).2.2.1 idle alive with
    ⟨still, -⟩ | ⟨-, once⟩
  · rw [none] at still
    cases still
  · exact once

end State

end FileRelay
