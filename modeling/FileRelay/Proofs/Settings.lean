import FileRelay.Proofs.Authority
import FileRelay.Proofs.Lengths
import FileRelay.Proofs.Spelling
import FileRelay.Proofs.Steady
import FileRelay.Proofs.Wire
import FileRelay.Wire.Settings

/-!
# Mount settings keep the time of requests

The settings of a mount are written as one flat object, in which the time that requests are
given is a text.  Two spans can be equally long and yet be written differently, so it is not
enough that what is read is an equal time: the settings that are read are the ones that were
written, unit and amount included (`MountSettings.ofJson?_toJson`).  A mount gives that time
to every request that its operations make, in every run
(`State.Reaches.timeout_of_outstanding`).
-/

namespace FileRelay

/-! ## What is written is read back -/

namespace Fields

variable {fields : Fields} {name other : String} {j : Json} {value : α} {read : Json → Option α}

@[simp] theorem orElse_cons : orElse ((name, j) :: fields) name value read = read j := by
  simp [orElse]

@[simp] theorem orElse_cons_ne (h : name ≠ other) :
    orElse ((other, j) :: fields) name value read = orElse fields name value read := by
  simp [orElse, List.lookup_cons, beq_false_of_ne h]

end Fields

@[simp] theorem TimeSpan.ofJson?_toJson (span : TimeSpan) : ofJson? span.toJson = some span :=
  ofText?_text span

/-- A description is read back from among further fields. -/
theorem MountInfo.ofFields?_append (info : MountInfo) (more : Fields) :
    ofFields? (info.fields ++ more) = some info := by
  simp [ofFields?, fields]

@[simp] theorem MountSettings.ofJson?_toJson (settings : MountSettings) :
    ofJson? settings.toJson = some settings := by
  have time : Fields.orElse (settings.info.fields ++
      [("request_timeout", settings.requestTimeout.toJson)]) "request_timeout"
      defaultRequestTimeout TimeSpan.ofJson? = some settings.requestTimeout := by
    simp [MountInfo.fields]
  simp [ofJson?, toJson, ofFields?, MountInfo.ofFields?_append, time]

/-! ## The time requests are given -/

/-- Requests wait without end just if the amount is zero, whatever its unit. -/
theorem MountSettings.timeLimit_eq_none {settings : MountSettings} :
    settings.timeLimit = none ↔ settings.requestTimeout.amount = 0 := by
  simp [timeLimit, TimeSpan.isZero]

namespace State

variable {s t u v w : State} {rest : List Task} {call : Call} {self : RequestId} {p : Pending}
  {operation : Operation} {tag : Option String} {followUp : List Call} {key : RequestKey}
  {settings : MountSettings} {link : Link} {timersRun : Bool} {firstId : UInt32} {horizon : Nat}

/-- A request that a call has registered is given the time that goes with the call. -/
theorem Tick.timeout_of_issue (h : Tick { s with agenda := rest } (.issue call self) t)
    (mem : p ∈ t.ledger.entries) (absent : ∀ q ∈ s.ledger.entries, q.key ≠ p.key) :
    p.timeout = (Task.issue call self).timeout? s := by
  have old : ∀ q ∈ s.ledger.entries, q.key = p.key → False := absent
  cases h with
  | @enter _ q _ enters timeout =>
    rw [enters.ledger] at mem
    rcases List.mem_append.1 mem with mem | mem
    · exact (old p (List.mem_filter.1 mem).1 rfl).elim
    · rw [List.mem_singleton.1 mem]
      exact timeout
  | steady _ steady =>
    obtain ⟨q, hq, timed⟩ := steady.entries p mem
    exact (old q hq timed.key.symm).elim
  | take _ _ ledger =>
    rw [ledger] at mem
    obtain ⟨q, hq, rfl⟩ := List.mem_map.1 mem
    refine (old q hq ?_).elim
    split <;> rfl

/-- The request of an operation is given the time that the mount gives. -/
theorem Bears.timeout_of_starts {task : Task} (h : v.Bears w task p)
    (starts : v.Starts w operation tag followUp key) (hv : v.Sane) :
    p.timeout = v.heldMount?.bind Mount.timeout := by
  obtain ⟨self, rest, called⟩ := starts.call
  obtain ⟨task', rest', ha, tick⟩ := hv.exists_tick h.step
  obtain ⟨rfl, rfl⟩ := List.cons.inj (ha.symm.trans called)
  have mem := (mem_of_trace (congrArg Trace.outstanding h.after)).1
  exact tick.timeout_of_issue mem fun q hq =>
    not_mem_of_trace (congrArg Trace.outstanding h.before) hq

/-- Whatever the run, an outstanding request of an operation has the time of the mount's
settings. -/
theorem Reaches.timeout_of_outstanding
    (reached : Reaches (ofMount settings link timersRun firstId horizon) u)
    (mem : p ∈ u.ledger.entries) (facade : p.owner.isOperation) :
    p.timeout = settings.timeLimit.map TimeSpan.length := by
  have start : Start (ofMount settings link timersRun firstId horizon) := .mount ..
  obtain ⟨steps, course⟩ := reached.exists_course
  have shows : u.trace p.key ≠ {} := by
    rw [((course.fate start p.key).of_mem mem).2]
    simp
  -- The request is what it was when an operation registered it.
  obtain ⟨before, v, after, w, task, q, rfl, bears, own, toW, fromW⟩ :=
    course.exists_bears start shows
  obtain ⟨-, -, -, toV, -⟩ := course.reaches_of_mem (x := v) (by simp)
  have same := fromW.continues_of_mem start toW bears.after mem own.symm
  rw [same.owner.isOperation_eq] at facade
  obtain ⟨operation, tag, followUp, parts, starts, -⟩ := bears.starts facade (toW.sane start)
  obtain ⟨m, content, held, -⟩ := bears.request_of_starts starts (toV.sane start.sane)
  rw [same.timeout, bears.timeout_of_starts starts (toV.sane start.sane), held, Option.bind_some,
    Mount.timeout, toV.settings_eq held]

end State

namespace MountSettings

/-- What becomes of the settings of a mount on the wire. -/
structure KeptOnWire (settings : MountSettings) : Prop where
  /-- They are read as they were written. -/
  readBack : ofJson? settings.toJson = some settings
  /-- Every request made by an operation of a mount that has the settings read is given the time
  of the settings written. -/
  given : ∀ read link timersRun firstId horizon u p, ofJson? settings.toJson = some read →
    State.Reaches (State.ofMount read link timersRun firstId horizon) u → p ∈ u.ledger.entries →
    p.owner.isOperation →
    p.timeout = (settings.timeLimit.map TimeSpan.duration).map Duration.millis
  /-- There is no such time if the amount is zero, and only then. -/
  unlimited : settings.timeLimit = none ↔ settings.requestTimeout.amount = 0
  /-- Otherwise it is exactly as long as the settings say, but that minutes stop at the greatest
  number of seconds that a word can hold. -/
  exact_length : ∀ limit, settings.timeLimit = some limit →
    limit.duration.totalNanos =
      match settings.requestTimeout.unit with
      | .milliseconds => settings.requestTimeout.amount.toNat * 1000000
      | .seconds => settings.requestTimeout.amount.toNat * 1000000000
      | .minutes =>
        min (settings.requestTimeout.amount.toNat * 60) (UInt64.size - 1) * 1000000000

/-- Settings come through the wire with all that they say, and with them the time that requests
are given, which is exact for all amounts of all units but for the limit on minutes. -/
theorem kept_on_wire (settings : MountSettings) : KeptOnWire settings where
  readBack := ofJson?_toJson settings
  given := by
    intro read link timersRun firstId horizon u p readBack reached mem facade
    rw [ofJson?_toJson, Option.some.injEq] at readBack
    subst readBack
    have millis : (Duration.millis ∘ TimeSpan.duration) = TimeSpan.length :=
      funext TimeSpan.millis_duration
    rw [reached.timeout_of_outstanding mem facade, Option.map_map, millis]
  unlimited := timeLimit_eq_none
  exact_length := by
    intro limit limited
    obtain rfl : settings.requestTimeout = limit := by
      rw [timeLimit, Option.ite_none_left_eq_some] at limited
      exact Option.some.inj limited.2
    rw [TimeSpan.totalNanos_duration, TimeSpan.length, TimeSpan.longestSeconds]
    cases settings.requestTimeout.unit <;> dsimp only <;> omega

/-- A mount whose settings are read from the wire, and say two minutes, gives its first request
120000 milliseconds. -/
theorem kept_on_wire_of_minutes :
    ∃ (written read : MountSettings) (u : State) (p : Pending),
      written.requestTimeout = ⟨.minutes, 2⟩ ∧ ofJson? written.toJson = some read ∧
      State.Reaches (State.ofMount read (.direct {}) true) u ∧ p ∈ u.ledger.entries ∧
      p.owner.isOperation ∧ p.timeout = some 120000 := by
  let written : MountSettings :=
    { info := { providerId := "p", fileSystemId := "f", displayName := "d" }
      requestTimeout := ⟨.minutes, 2⟩ }
  have asked : ((State.ofMount written (.direct {}) true).follow?
      [.call (.operate (.getMetadata "/a") none []) ⟨0⟩, .work]).any
        fun u => u.ledger.entries.any (·.owner.isOperation) := by decide +kernel
  obtain ⟨u, run, found⟩ := (Option.any_eq_true _ _).1 asked
  obtain ⟨p, mem, facade⟩ := List.any_eq_true.1 found
  have kept := kept_on_wire written
  have reached := State.reaches_of_follow? run
  have given := kept.given _ _ _ _ _ u p kept.readBack reached mem facade
  have minutes : (written.timeLimit.map TimeSpan.duration).map Duration.millis = some 120000 := by
    decide +kernel
  exact ⟨written, written, u, p, rfl, kept.readBack, reached, mem, facade, given.trans minutes⟩

end MountSettings

end FileRelay
