import Mathlib.Data.List.Induction
import Mathlib.Data.List.Basic
import FileRelay.TimeSpan.Text

/-!
# How spans are spelt

A span is spelt as a run of ASCII digits and one of six suffixes behind it, and nothing
else is read as a span (`TimeSpan.ofText?_eq_some_iff`).  Reading takes all the digits in
front for the amount and all that follows for the unit, so it matters that no suffix begins
with a digit.  In the other direction a span has one spelling that is written: the numeral
of its amount, and the unit in lower case.  A text that is read is written with its leading
zeros gone, up to the last digit (`TimeSpan.text_of_ofText?`); for this, a run of digits
that has none must be the numeral of its value (`Decimal.render_value`).
-/

namespace FileRelay

namespace Decimal

variable {c : Char} {ds : List Char}

/-! ## Digits and numerals -/

theorem isDigit_iff : isDigit c ↔ '0' ≤ c ∧ c ≤ '9' := by simp [isDigit]

theorem weight_lt (h : isDigit c) : weight c < 10 := by
  have upper : c.toNat ≤ 57 := UInt32.le_iff_toNat_le.1 (isDigit_iff.1 h).2
  unfold weight
  omega

/-- A digit is the one that stands for what it stands for. -/
theorem digit_weight (h : isDigit c) : digit (weight c) = c := by
  have lower : 48 ≤ c.toNat := UInt32.le_iff_toNat_le.1 (isDigit_iff.1 h).1
  rw [digit, weight, Nat.add_sub_cancel' lower, Char.ofNat_toNat]

theorem weight_eq_zero (h : isDigit c) (zero : weight c = 0) : c = '0' := by
  rw [← digit_weight h, zero]
  rfl

theorem toLower_of_isDigit (h : isDigit c) : c.toLower = c := by
  have same : ∀ n : Fin 10, (digit n).toLower = digit n := by decide
  have := same ⟨weight c, weight_lt h⟩
  rwa [digit_weight h] at this

/-- The numeral of a number is the usual one. -/
theorem render_eq_toDigits (n : Nat) : render n = Nat.toDigits 10 n := by
  have digits : ∀ m : Fin 10, digit m = Nat.digitChar m := by decide
  induction n using Nat.strongRecOn with
  | ind n ih =>
    rw [render]
    split
    · next small => rw [Nat.toDigits_of_lt_base small, digits ⟨n, small⟩]
    · next large =>
      have last : n % 10 < 10 := Nat.mod_lt n (by decide)
      rw [ih (n / 10) (by omega), digits ⟨n % 10, last⟩, ← Nat.toDigits_of_lt_base last,
        Nat.toDigits_append_toDigits (by decide) (by omega) last, Nat.div_add_mod]

theorem value_cons_zero (ds : List Char) : value ('0' :: ds) = value ds := rfl

/-- A run of digits that does not begin with a zero is the numeral of its value. -/
theorem render_value (ne : ds ≠ []) (digits : ∀ c ∈ ds, isDigit c) (head : ds.head? ≠ some '0') :
    render (value ds) = ds ∧ 0 < value ds := by
  induction ds using List.reverseRecOn with
  | nil => exact absurd rfl ne
  | append_singleton ds c ih =>
    have hc : isDigit c := digits c (by simp)
    have small := weight_lt hc
    rw [value_append_singleton]
    by_cases first : ds = []
    · subst first
      have positive : weight c ≠ 0 := fun zero => head (by rw [weight_eq_zero hc zero]; rfl)
      have nothing : value [] = 0 := rfl
      rw [nothing, render, if_pos (by omega)]
      refine ⟨?_, by omega⟩
      rw [Nat.mul_zero, Nat.zero_add, digit_weight hc]
      rfl
    · rw [List.head?_append_of_ne_nil _ first] at head
      obtain ⟨numeral, positive⟩ := ih first (fun d hd => digits d (by simp [hd])) head
      have quotient : (10 * value ds + weight c) / 10 = value ds := by omega
      have remainder : (10 * value ds + weight c) % 10 = weight c := by omega
      refine ⟨?_, by omega⟩
      rw [render, if_neg (by omega), quotient, remainder, numeral, digit_weight hc]

end Decimal

/-! ## Units -/

/-- How a unit may be spelt. -/
def TimeUnit.spellings : TimeUnit → List (List Char)
  | .milliseconds => [['m', 's'], ['M', 'S']]
  | .seconds => [['s'], ['S']]
  | .minutes => [['m'], ['M']]

namespace TimeUnit

variable {unit : TimeUnit} {suffix : List Char}

theorem ofChars?_eq_some_iff : ofChars? suffix = some unit ↔ suffix ∈ unit.spellings := by
  constructor
  · intro h
    unfold ofChars? at h
    split at h <;> cases h <;> decide
  · intro h
    cases unit <;> simp only [spellings, List.mem_cons, List.not_mem_nil, or_false] at h <;>
      rcases h with rfl | rfl <;> rfl

theorem chars_mem_spellings (unit : TimeUnit) : unit.chars ∈ unit.spellings := by
  cases unit <;> decide

/-- A suffix is written in lower case. -/
theorem map_toLower (h : suffix ∈ unit.spellings) : suffix.map Char.toLower = unit.chars := by
  have lower : ∀ cs ∈ unit.spellings, cs.map Char.toLower = unit.chars := by
    cases unit <;> decide
  exact lower suffix h

/-- No suffix begins with a digit, so that the digits end where the suffix begins. -/
theorem head_not_digit (h : suffix ∈ unit.spellings) :
    ∃ c rest, suffix = c :: rest ∧ Decimal.isDigit c = false := by
  have letters : ∀ cs ∈ unit.spellings, (cs.head?.map Decimal.isDigit) = some false := by
    cases unit <;> decide
  obtain ⟨c, hc, letter⟩ := Option.map_eq_some_iff.1 (letters suffix h)
  exact ⟨c, suffix.tail, List.eq_cons_of_mem_head? hc, letter⟩

end TimeUnit

namespace TimeSpan

variable {span : TimeSpan} {unit : TimeUnit} {s : String} {cs digits suffix : List Char}

/-! ## The grammar -/

/-- A text is a run of ASCII digits, at least one, with a unit behind it. -/
structure Spells (s : String) (digits : List Char) (unit : TimeUnit) : Prop where
  text : ∃ suffix ∈ unit.spellings, s.toList = digits ++ suffix
  nonempty : digits ≠ []
  ascii : ∀ c ∈ digits, '0' ≤ c ∧ c ≤ '9'

/-- The digits in front of a suffix and the suffix are told apart. -/
theorem split_append (ascii : ∀ c ∈ digits, Decimal.isDigit c) (h : suffix ∈ unit.spellings) :
    (digits ++ suffix).takeWhile Decimal.isDigit = digits ∧
      (digits ++ suffix).dropWhile Decimal.isDigit = suffix := by
  obtain ⟨c, rest, rfl, letter⟩ := TimeUnit.head_not_digit h
  rw [List.takeWhile_append_of_pos ascii, List.dropWhile_append_of_pos ascii,
    List.takeWhile_cons_of_neg (by simp [letter]), List.dropWhile_cons_of_neg (by simp [letter]),
    List.append_nil]
  exact ⟨rfl, rfl⟩

/-- A text is spelt in one way at most. -/
theorem Spells.unique {digits' : List Char} {unit' : TimeUnit} (h : Spells s digits unit)
    (h' : Spells s digits' unit') : digits = digits' ∧ unit = unit' := by
  obtain ⟨⟨suffix, known, text⟩, -, ascii⟩ := h
  obtain ⟨⟨suffix', known', text'⟩, -, ascii'⟩ := h'
  have split := split_append (fun c hc => Decimal.isDigit_iff.2 (ascii c hc)) known
  have split' := split_append (fun c hc => Decimal.isDigit_iff.2 (ascii' c hc)) known'
  rw [← text] at split
  rw [← text'] at split'
  obtain rfl : suffix = suffix' := split.2.symm.trans split'.2
  rw [← TimeUnit.ofChars?_eq_some_iff] at known known'
  exact ⟨split.1.symm.trans split'.1, Option.some.inj (known.symm.trans known')⟩

/-- An amount is read from digits whose value a word can hold. -/
theorem amountOfDigits?_eq_some_iff {amount : UInt64} :
    amountOfDigits? digits = some amount ↔
      digits ≠ [] ∧ Decimal.value digits = amount.toNat := by
  have bound := amount.toNat_lt_size
  unfold amountOfDigits?
  by_cases empty : digits = []
  · simp [empty]
  · rw [if_neg empty]
    by_cases fits : Decimal.value digits < UInt64.size
    · rw [if_pos fits, Option.some.injEq, ← UInt64.toNat_inj, UInt64.toNat_ofNat_of_lt' fits]
      simp [empty]
    · rw [if_neg fits]
      simp only [reduceCtorEq, false_iff]
      omega

/-- A text is read as a span if it is spelt as one of that amount and that unit. -/
theorem ofText?_eq_some_iff : ofText? s = some span ↔
    ∃ digits, Spells s digits span.unit ∧ Decimal.value digits = span.amount.toNat := by
  unfold ofText? ofChars?
  constructor
  · intro read
    obtain ⟨unit, hu, read⟩ := Option.bind_eq_some_iff.1 read
    obtain ⟨amount, ha, read⟩ := Option.bind_eq_some_iff.1 read
    cases read
    obtain ⟨nonempty, value⟩ := amountOfDigits?_eq_some_iff.1 ha
    refine ⟨_, ⟨⟨_, TimeUnit.ofChars?_eq_some_iff.1 hu, ?_⟩, nonempty, fun c hc => ?_⟩, value⟩
    · exact List.takeWhile_append_dropWhile.symm
    · exact Decimal.isDigit_iff.1 (List.all_eq_true.1 List.all_takeWhile c hc)
  · rintro ⟨digits, ⟨⟨suffix, known, text⟩, nonempty, ascii⟩, value⟩
    have split := split_append (fun c hc => Decimal.isDigit_iff.2 (ascii c hc)) known
    rw [text, split.1, split.2, TimeUnit.ofChars?_eq_some_iff.2 known,
      amountOfDigits?_eq_some_iff.2 ⟨nonempty, value⟩]
    rfl

theorem isSome_ofText?_iff : (ofText? s).isSome ↔
    ∃ digits unit, Spells s digits unit ∧ Decimal.value digits < UInt64.size := by
  rw [Option.isSome_iff_exists]
  constructor
  · rintro ⟨span, read⟩
    obtain ⟨digits, spells, value⟩ := ofText?_eq_some_iff.1 read
    exact ⟨digits, span.unit, spells, value ▸ span.amount.toNat_lt_size⟩
  · rintro ⟨digits, unit, spells, fits⟩
    refine ⟨⟨unit, UInt64.ofNat (Decimal.value digits)⟩, ofText?_eq_some_iff.2 ⟨digits, spells, ?_⟩⟩
    exact (UInt64.toNat_ofNat_of_lt' fits).symm

/-! ## Writing and reading -/

/-- What is written is spelt by the numeral of the amount. -/
theorem spells_text (span : TimeSpan) :
    Spells span.text (Decimal.render span.amount.toNat) span.unit where
  text := ⟨span.unit.chars, span.unit.chars_mem_spellings, String.toList_ofList⟩
  nonempty := Decimal.render_ne_nil _
  ascii := fun _ hc => Decimal.isDigit_iff.1 (Decimal.isDigit_of_mem_render hc)

@[simp] theorem ofText?_text (span : TimeSpan) : ofText? span.text = some span :=
  ofText?_eq_some_iff.2 ⟨_, spells_text span, Decimal.value_render _⟩

/-- Leaves out zeros in front, as long as another digit follows. -/
def dropZeros : List Char → List Char
  | '0' :: c :: rest =>
    if Decimal.isDigit c then dropZeros (c :: rest) else '0' :: c :: rest
  | cs => cs

/-- A text without zeros that it could do without, in lower case. -/
def tidied (s : String) : String := String.ofList ((dropZeros s.toList).map Char.toLower)

/-- In front of a suffix, leaving out zeros makes a numeral of the digits. -/
theorem dropZeros_append (nonempty : digits ≠ []) (ascii : ∀ c ∈ digits, Decimal.isDigit c)
    (h : suffix ∈ unit.spellings) :
    dropZeros (digits ++ suffix) = Decimal.render (Decimal.value digits) ++ suffix := by
  obtain ⟨letter, letters, rfl, hl⟩ := TimeUnit.head_not_digit h
  induction digits with
  | nil => exact absurd rfl nonempty
  | cons c rest ih =>
    by_cases zero : c = '0'
    · subst zero
      cases rest with
      | nil =>
        have numeral : Decimal.render (Decimal.value ['0']) = ['0'] := by
          rw [Decimal.render]
          rfl
        rw [numeral, List.cons_append, List.nil_append, dropZeros, if_neg (by simp [hl])]
      | cons d rest =>
        have hd : Decimal.isDigit d := ascii d (by simp)
        rw [List.cons_append, List.cons_append, dropZeros, if_pos hd, Decimal.value_cons_zero]
        exact ih (by simp) fun e he => ascii e (List.mem_cons_of_mem _ he)
    · rw [(Decimal.render_value nonempty ascii (by simpa using zero)).1, List.cons_append,
        dropZeros]
      simp [zero]

/-- What is written of a text that was read is the text, tidied. -/
theorem text_of_ofText? (read : ofText? s = some span) : span.text = tidied s := by
  obtain ⟨digits, ⟨⟨suffix, known, text⟩, nonempty, ascii⟩, value⟩ := ofText?_eq_some_iff.1 read
  have numeral : ∀ c ∈ Decimal.render span.amount.toNat, c.toLower = c :=
    fun c hc => Decimal.toLower_of_isDigit (Decimal.isDigit_of_mem_render hc)
  rw [tidied, text,
    dropZeros_append nonempty (fun c hc => Decimal.isDigit_iff.2 (ascii c hc)) known, value,
    List.map_append, TimeUnit.map_toLower known, List.map_congr_left numeral, List.map_id']
  rfl

/-- Spans and their spellings. -/
structure Spelling : Prop where
  /-- What can be read is a run of digits, of a value that a word can hold, and a unit. -/
  grammar : ∀ s, (ofText? s).isSome ↔
    ∃ digits unit, Spells s digits unit ∧ Nat.ofDigitChars 10 digits 0 ≤ UInt64.size - 1
  /-- It is read as that amount of that unit. -/
  meaning : ∀ s span digits unit, ofText? s = some span → Spells s digits unit →
    span.unit = unit ∧ span.amount.toNat = Nat.ofDigitChars 10 digits 0
  /-- What is written is the usual numeral, and the unit. -/
  written : ∀ span : TimeSpan, span.text = toString span.amount.toNat ++ span.unit.text
  /-- What was written is read as the same amount of the same unit. -/
  readBack : ∀ span : TimeSpan, ofText? span.text = some span
  /-- What was read is written without zeros that it can do without, and in lower case. -/
  tidy : ∀ s span, ofText? s = some span → span.text = tidied s

/-- Spans are spelt exactly by their grammar, and reading undoes writing. -/
theorem spelling_exact : Spelling where
  grammar := by
    intro s
    have fits : ∀ n, n < UInt64.size ↔ n ≤ UInt64.size - 1 :=
      fun _ => Nat.lt_iff_le_pred (by decide)
    simp only [isSome_ofText?_iff, fits]
    rfl
  meaning := by
    intro s span digits unit read spells
    obtain ⟨digits', spells', value⟩ := ofText?_eq_some_iff.1 read
    obtain ⟨rfl, rfl⟩ := spells.unique spells'
    exact ⟨rfl, value.symm⟩
  written := by
    intro span
    rw [text, chars, Decimal.render_eq_toDigits, String.ofList_append]
    rfl
  readBack := ofText?_text
  tidy := fun _ _ => text_of_ofText?

end TimeSpan

end FileRelay
