/-
**What a process makes of the variable that limits runs.**

* `Numeral.Limits` — a text that is a number of 64 bits between blanks; by
  `Settings.stepBudgetOfText_eq_ok_iff` exactly these texts set a limit, the number.
* `Configuration.attempt` — the configuration of a process after it was to make its settings.
* `Configuration.LimitsAsSet` — no environment is taken for one without a limit if the variable is
  set: it holds a number, which is the limit, or is refused.
* `Configuration.limitsAsSet_iff` — so it is exactly under variables whose bytes are text, while
  others count as unset; `Configuration.bytes_set_no_limit` is such a variable.
-/

import Asm16.Proofs.Assembly.Printing
import Asm16.Proofs.Assembly.Scanning
import Asm16.Proofs.CommandLine.CompileRun

namespace Asm16

/-! ### Numbers between blanks -/

theorem Utf8.decode?_eq_some_iff {bytes : ByteArray} {text : String} :
    decode? bytes = some text ↔ text.toUTF8 = bytes := by
  constructor
  · intro decoded
    unfold decode? String.fromUTF8? at decoded
    split at decoded
    · cases decoded
      rfl
    · cases decoded
  · rintro rfl
    exact decode?_toUTF8 text

namespace Numeral

/-- A text is a number between blanks: after an optional plus sign a decimal numeral that denotes a
number of at most 64 bits. -/
inductive Limits : List Char → Nat → Prop
  | number {lead sign trail : List Char} {digits : String}
      (before : ∀ c ∈ lead, Text.isBlank c = true) (signed : sign = [] ∨ sign = ['+'])
      (numeral : IsNumeral digits) (small : decimalValue digits.toList ≤ 2 ^ 64 - 1)
      (after : ∀ c ∈ trail, Text.isBlank c = true) :
      Limits (lead ++ ((sign ++ digits.toList) ++ trail)) (decimalValue digits.toList)

/-- The numbers that are read are decimal numerals after an optional plus sign. -/
theorem unsigned?_eq_some_iff {largest limit : Nat} {text : List Char} :
    unsigned? largest text = some limit ↔ ∃ sign digits, text = sign ++ digits ∧
      (sign = [] ∨ sign = ['+']) ∧ isDecimal digits = true ∧ decimalValue digits = limit ∧
      limit ≤ largest := by
  have digits_iff {digits : List Char} :
      (if isDecimal digits && decimalValue digits ≤ largest then some (decimalValue digits)
        else none) = some limit ↔
      isDecimal digits = true ∧ decimalValue digits = limit ∧ limit ≤ largest := by
    rw [Option.ite_none_right_eq_some, Bool.and_eq_true, decide_eq_true_iff, Option.some.injEq]
    constructor
    · rintro ⟨⟨decimal, small⟩, rfl⟩
      exact ⟨decimal, rfl, small⟩
    · rintro ⟨decimal, rfl, small⟩
      exact ⟨⟨decimal, small⟩, rfl⟩
  unfold unsigned?
  split
  · next rest =>
    rw [digits_iff]
    constructor
    · rintro ⟨decimal, value, small⟩
      exact ⟨['+'], rest, rfl, .inr rfl, decimal, value, small⟩
    · rintro ⟨sign, digits, same, rfl | rfl, decimal, value, small⟩
      · -- A plus sign is no digit.
        rw [← show '+' :: rest = digits from same] at decimal
        cases decimal
      · cases same
        exact ⟨decimal, value, small⟩
  · next unsigned =>
    rw [digits_iff]
    constructor
    · rintro ⟨decimal, value, small⟩
      exact ⟨[], text, rfl, .inl rfl, decimal, value, small⟩
    · rintro ⟨sign, digits, rfl, rfl | rfl, decimal, value, small⟩
      · exact ⟨decimal, value, small⟩
      · exact absurd rfl (unsigned digits)

theorem isBlank_of_isDigit {c : Char} (digit : IsDigit c) : Text.isBlank c = false := by
  have alphanumeric : c.isAlphanum = true := by
    rw [Char.isAlphanum, isDigit_iff.mpr digit, Bool.or_true]
  exact (Bool.or_eq_false_iff.mp (Source.isSeparator_of_isAlphanum alphanumeric)).1

/-- A signed or unsigned numeral has no blanks at its ends. -/
theorem trims_of_isNumeral {lead sign trail : List Char} {digits : String}
    (before : ∀ c ∈ lead, Text.isBlank c = true) (signed : sign = [] ∨ sign = ['+'])
    (numeral : IsNumeral digits) (after : ∀ c ∈ trail, Text.isBlank c = true) :
    Source.Trims (lead ++ ((sign ++ digits.toList) ++ trail)) lead (sign ++ digits.toList)
      trail := by
  have solid : ∀ c ∈ sign ++ digits.toList, Text.isBlank c = false := by
    intro c member
    rcases List.mem_append.mp member with inSign | inDigits
    · rcases signed with rfl | rfl
      · cases inSign
      · rw [List.mem_singleton.mp inSign]
        rfl
    · exact isBlank_of_isDigit (numeral.2 c inDigits)
  have nonempty : digits.toList ≠ [] := mt String.toList_eq_nil_iff.mp numeral.1
  exact ⟨rfl, by simp [nonempty], before, fun c head => solid c (List.mem_of_head? head),
    fun c last => solid c (List.mem_of_getLast? last), after⟩

end Numeral

namespace Settings

variable {environment : Variables} {text : String}

/-- Exactly the numbers between blanks set a limit. -/
theorem stepBudgetOfText_eq_ok_iff {limit : Nat} :
    stepBudgetOfText text = .ok limit ↔ Numeral.Limits text.toList limit := by
  have read_iff : stepBudgetOfText text = .ok limit ↔
      Numeral.unsigned? Numeral.largest64 (Text.trim text.toList) = some limit := by
    unfold stepBudgetOfText
    cases Numeral.unsigned? Numeral.largest64 (Text.trim text.toList) with
    | some budget => simp
    | none => simp
  rw [read_iff, Numeral.unsigned?_eq_some_iff]
  generalize text.toList = written
  constructor
  · rintro ⟨sign, digits, trimmed, signed, decimal, rfl, small⟩
    obtain ⟨digits, rfl⟩ : ∃ numeral : String, numeral.toList = digits :=
      ⟨String.ofList digits, String.toList_ofList⟩
    have numeral := Numeral.isDecimal_iff.mp decimal
    have nonempty : digits.toList ≠ [] := mt String.toList_eq_nil_iff.mp numeral.1
    have filled : ¬ ∀ c ∈ written, Text.isBlank c = true := by
      rw [← Text.trim_eq_nil_iff, trimmed]
      simp [nonempty]
    obtain ⟨lead, core, trail, trims⟩ := Source.exists_trims filled
    rw [trims.whole, ← trims.trim_eq, trimmed]
    exact .number trims.lead signed numeral small trims.trail
  · rintro ⟨before, signed, numeral, small, after⟩
    exact ⟨_, _, (Numeral.trims_of_isNumeral before signed numeral after).trim_eq, signed,
      Numeral.isDecimal_iff.mpr numeral, rfl, small⟩

/-- A variable whose bytes are text sets the limit of that text. -/
theorem ofVariables_of_text (set : environment.stepBudget = some text.toUTF8) :
    ofVariables environment = (stepBudgetOfText text).map fun limit =>
      ⟨environment.trace.bind Utf8.decode? == some "1", some limit⟩ := by
  have decoded : environment.stepBudget.bind Utf8.decode? = some text := by
    rw [set]
    exact Utf8.decode?_toUTF8 text
  simp only [ofVariables, decoded]
  cases stepBudgetOfText text <;> rfl

/-- A variable whose bytes are no text sets none, nor does one that is unset. -/
theorem ofVariables_of_no_text
    (other : ∀ text : String, environment.stepBudget ≠ some text.toUTF8) :
    ofVariables environment =
      .ok ⟨environment.trace.bind Utf8.decode? == some "1", none⟩ := by
  have undecoded : environment.stepBudget.bind Utf8.decode? = none := by
    cases set : environment.stepBudget with
    | none => rfl
    | some bytes =>
      show Utf8.decode? bytes = none
      cases decoded : Utf8.decode? bytes with
      | none => rfl
      | some text => exact absurd (Utf8.decode?_eq_some_iff.mp decoded ▸ set) (other text)
  simp only [ofVariables, undecoded]

end Settings

/-! ### Making the settings -/

namespace Variables

/-- The bytes of a variable are a limit: the text of a number between blanks. -/
def IsLimit (bytes : ByteArray) (limit : Nat) : Prop :=
  ∃ text : String, text.toUTF8 = bytes ∧ Numeral.Limits text.toList limit

theorem isLimit_toUTF8_iff {text : String} {limit : Nat} :
    IsLimit text.toUTF8 limit ↔ Settings.stepBudgetOfText text = .ok limit := by
  rw [Settings.stepBudgetOfText_eq_ok_iff]
  constructor
  · rintro ⟨other, same, limits⟩
    have decoded := Utf8.decode?_eq_some_iff.mpr same
    rw [Utf8.decode?_toUTF8] at decoded
    exact Option.some.inj decoded ▸ limits
  · exact fun limits => ⟨text, rfl, limits⟩

end Variables

namespace Configuration

open Variables (IsLimit)

/-- The configuration of a process after it was to make its settings: as before, if none can be
made. -/
def attempt (configuration : Configuration) (environment : Variables) : Configuration :=
  match configuration.make environment with
  | .ok made => made
  | .error _ => configuration

/-- Settings are made without a limit only if the variable is unset, and with one only if that is
the number in the variable. Under any other variable they are refused, and can be made later. -/
structure LimitsAsSet (environment : Variables) : Prop where
  unlimited : (∃ trace, make none environment = .ok (some ⟨trace, none⟩)) ↔
    environment.stepBudget = none
  limited : ∀ limit, (∃ trace, make none environment = .ok (some ⟨trace, some limit⟩)) ↔
    ∃ bytes, environment.stepBudget = some bytes ∧ IsLimit bytes limit
  refused : ∀ bytes, environment.stepBudget = some bytes → (∀ limit, ¬ IsLimit bytes limit) →
    (∃ text, make none environment = .error (.invalid (.invalidStepBudget text))) ∧
      attempt none environment = none ∧
      ∀ later settings, Settings.ofVariables later = .ok settings →
        (attempt none environment).make later = .ok (some settings)

variable {environment : Variables} {settings : Settings}

theorem make_none_of_ok (made : Settings.ofVariables environment = .ok settings) :
    make none environment = .ok (some settings) := by
  unfold make
  rw [made]

theorem make_of_error {error : SettingsError} (configuration : Configuration)
    (refused : Settings.ofVariables environment = .error error) :
    configuration.make environment = .error (.invalid error) := by
  unfold make
  rw [refused]

theorem limitsAsSet_of_unset (unset : environment.stepBudget = none) :
    LimitsAsSet environment := by
  have makes := make_none_of_ok <| Settings.ofVariables_of_no_text fun text set => by
    rw [unset] at set
    cases set
  refine ⟨⟨fun _ => unset, fun _ => ⟨_, makes⟩⟩, fun limit => ⟨?_, ?_⟩, ?_⟩
  · rintro ⟨trace, limited⟩
    cases makes.symm.trans limited
  · rintro ⟨bytes, set, -⟩
    cases unset.symm.trans set
  · intro bytes set
    cases unset.symm.trans set

/-- A variable that is set to a number between blanks limits runs by it. -/
theorem limitsAsSet_of_limit {text : String} {limit : Nat}
    (set : environment.stepBudget = some text.toUTF8)
    (read : Settings.stepBudgetOfText text = .ok limit) : LimitsAsSet environment := by
  have made := Settings.ofVariables_of_text set
  rw [read] at made
  have makes := make_none_of_ok made
  refine ⟨⟨?_, fun unset => ?_⟩, fun other => ⟨?_, ?_⟩, fun bytes same unlimited => ?_⟩
  · rintro ⟨trace, unlimited⟩
    cases makes.symm.trans unlimited
  · cases unset.symm.trans set
  · rintro ⟨trace, limited⟩
    cases makes.symm.trans limited
    exact ⟨_, set, Variables.isLimit_toUTF8_iff.mpr read⟩
  · rintro ⟨bytes, same, isLimit⟩
    obtain rfl := Option.some.inj (set.symm.trans same)
    rw [Variables.isLimit_toUTF8_iff, read] at isLimit
    cases isLimit
    exact ⟨_, makes⟩
  · obtain rfl := Option.some.inj (set.symm.trans same)
    exact absurd (Variables.isLimit_toUTF8_iff.mpr read) (unlimited limit)

/-- A variable that is set to another text is refused, and no settings are made. -/
theorem limitsAsSet_of_refused {text : String} {error : SettingsError}
    (set : environment.stepBudget = some text.toUTF8)
    (refused : Settings.stepBudgetOfText text = .error error) : LimitsAsSet environment := by
  have made := Settings.ofVariables_of_text set
  rw [refused] at made
  have fails := make_of_error none made
  have kept : attempt none environment = none := by
    unfold attempt
    rw [fails]
  refine ⟨⟨?_, fun unset => ?_⟩, fun limit => ⟨?_, ?_⟩, fun bytes _ _ => ⟨?_, kept, ?_⟩⟩
  · rintro ⟨trace, unlimited⟩
    cases fails.symm.trans unlimited
  · cases unset.symm.trans set
  · rintro ⟨trace, limited⟩
    cases fails.symm.trans limited
  · rintro ⟨bytes, same, isLimit⟩
    obtain rfl := Option.some.inj (set.symm.trans same)
    rw [Variables.isLimit_toUTF8_iff, refused] at isLimit
    cases isLimit
  · cases error
    exact ⟨_, fails⟩
  · intro later settings made
    rw [kept]
    exact make_none_of_ok made

/-- **A variable that is set limits runs or is refused exactly if its bytes are text**, and is never
taken for no limit then. Other bytes silently are. -/
theorem limitsAsSet_iff (environment : Variables) :
    (LimitsAsSet environment ↔ ∀ bytes, environment.stepBudget = some bytes →
        ∃ text : String, text.toUTF8 = bytes) ∧
      ∀ bytes, environment.stepBudget = some bytes → (¬ ∃ text : String, text.toUTF8 = bytes) →
        ∃ trace, make none environment = .ok (some ⟨trace, none⟩) := by
  have silent (bytes : ByteArray) (set : environment.stepBudget = some bytes)
      (noText : ¬ ∃ text : String, text.toUTF8 = bytes) :
      ∃ trace, make none environment = .ok (some ⟨trace, none⟩) :=
    ⟨_, make_none_of_ok <| Settings.ofVariables_of_no_text fun text same =>
      noText ⟨text, Option.some.inj (same.symm.trans set)⟩⟩
  refine ⟨⟨fun asSet bytes set => ?_, fun texts => ?_⟩, silent⟩
  · by_contra noText
    cases set.symm.trans (asSet.unlimited.mp (silent bytes set noText))
  · cases set : environment.stepBudget with
    | none => exact limitsAsSet_of_unset set
    | some bytes =>
      obtain ⟨text, rfl⟩ := texts bytes set
      cases read : Settings.stepBudgetOfText text with
      | ok limit => exact limitsAsSet_of_limit set read
      | error error => exact limitsAsSet_of_refused set read

/-- **A single byte that encodes nothing sets no limit**, where a malformed variable was to be
refused. -/
theorem bytes_set_no_limit :
    let environment : Variables := ⟨none, some ⟨#[0xFF]⟩, none⟩
    make none environment = .ok (some ⟨false, none⟩) ∧ ¬ LimitsAsSet environment := by
  intro environment
  have undecoded : Utf8.decode? ⟨#[0xFF]⟩ = none := by decide +kernel
  have makes : make none environment = .ok (some ⟨false, none⟩) := by
    refine make_none_of_ok ?_
    simp only [Settings.ofVariables, environment, Option.bind_some, undecoded]
    rfl
  exact ⟨makes, fun asSet => by cases asSet.unlimited.mp ⟨false, makes⟩⟩

end Configuration

end Asm16
