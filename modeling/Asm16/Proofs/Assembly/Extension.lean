/-
**More labels undo no encoding.**

Before an outline is encoded, more labels can be added to the ones it has:

* `LabelTable.Extends` — a table keeps the labels of another one, and those it adds to them have
  names that labels may have.
* `LabelTable.insertAll` — the table after labels have been inserted one after another, with those
  left out whose names are bound.
* `Operand.resolve_of_extends`, `Statement.instr_of_extends` — what resolves, resolves to the same
  with more labels.
* `Outline.FailsAt` — the first statement without an instruction, for which encoding fails.
* `Outline.encode_insertAll` — with more labels, the encoding of an outline is the same or fails
  later, if it still fails.
-/

import Asm16.Proofs.Assembly.Translation

namespace Asm16

/-! ### More labels -/

namespace LabelTable

/-- A table keeps the labels of another one, and the names it adds are ones that labels may have. -/
structure Extends (table extended : LabelTable) : Prop where
  kept : ∀ name address, table.get? name = some address → extended.get? name = some address
  names : ∀ name, table.get? name = none → extended.get? name ≠ none → IsLabelName name

variable {table extended further : LabelTable}

theorem Extends.refl (table : LabelTable) : table.Extends table :=
  ⟨fun _ _ get => get, fun _ unbound bound => absurd unbound bound⟩

theorem Extends.trans (first : table.Extends extended) (second : extended.Extends further) :
    table.Extends further where
  kept name address get := second.kept name address (first.kept name address get)
  names name unbound bound := by
    by_cases between : extended.get? name = none
    · exact second.names name between bound
    · exact first.names name unbound between

theorem extends_of_insert {name : String} {address : Address} (valid : IsLabelName name)
    (inserted : table.insert name address = .ok extended) : table.Extends extended where
  kept other bound get := by
    have differs : other ≠ name := by
      rintro rfl
      rw [get?_eq_none_of_insert inserted] at get
      cases get
    rw [get?_of_insert inserted, if_neg differs, get]
  names other unbound bound := by
    rw [get?_of_insert inserted] at bound
    split at bound
    · next same => exact same ▸ valid
    · exact absurd unbound bound

/-- The table after a label has been inserted; one with a bound name is refused and changes
nothing. -/
def insertOrKeep (table : LabelTable) (label : String × Address) : LabelTable :=
  match table.insert label.1 label.2 with
  | .ok extended => extended
  | .error _ => table

/-- The table after labels have been inserted one after another. -/
def insertAll (table : LabelTable) (labels : List (String × Address)) : LabelTable :=
  labels.foldl insertOrKeep table

theorem extends_insertOrKeep (table : LabelTable) {label : String × Address}
    (valid : IsLabelName label.1) : table.Extends (table.insertOrKeep label) := by
  unfold insertOrKeep
  cases inserted : table.insert label.1 label.2 with
  | ok extended => exact extends_of_insert valid inserted
  | error first => exact .refl table

theorem extends_insertAll (table : LabelTable) {labels : List (String × Address)}
    (valid : ∀ label ∈ labels, IsLabelName label.1) : table.Extends (table.insertAll labels) := by
  induction labels generalizing table with
  | nil => exact .refl table
  | cons label rest ih =>
    have first := table.extends_insertOrKeep (valid label (by simp))
    exact first.trans (ih _ fun other inRest => valid other (by simp [inRest]))

end LabelTable

/-! ### What resolves -/

variable {table extended : LabelTable}

/-- What a token resolves to, it resolves to with more labels: none of them is named like a register
or like a numeral. -/
theorem Operand.resolve_of_extends (more : table.Extends extended) {token : String}
    {operand : Operand} (resolved : resolve table token = .ok operand) :
    resolve extended token = .ok operand := by
  rw [resolve_eq_iff] at resolved ⊢
  cases resolved with
  | register named => exact .register named
  | label unlikeRegisters bound =>
    rw [← LabelTable.get?_eq_some_iff] at bound
    exact .label unlikeRegisters (LabelTable.get?_eq_some_iff.mp (more.kept token _ bound))
  | numeral unlikeRegisters unbound numeral small =>
    rw [← LabelTable.get?_eq_none_iff] at unbound
    refine .numeral unlikeRegisters (LabelTable.get?_eq_none_iff.mp ?_) numeral small
    by_contra bound
    exact (more.names token unbound bound).not_isNumeral numeral

/-- The instruction of a statement is its instruction with more labels. -/
theorem Statement.instr_of_extends (more : table.Extends extended) {statement : Statement}
    {instr : Instr} (found : statement.instr table = .ok instr) :
    statement.instr extended = .ok instr := by
  rw [Statement.instr_eq_ok_iff] at found ⊢
  exact ⟨found.1, found.2.imp fun _ _ => Operand.resolve_of_extends more⟩

/-! ### Encoding -/

namespace Outline

/-- Encoding fails at the statement in a place, counted from zero: it fails with the error of that
statement, and every statement before it has an instruction. -/
structure FailsAt (outline : Outline) (place : Nat) (error : SourceError) : Prop where
  refused : outline.encode = .error error
  earlier : ∀ before < place, ∀ statement, outline.statements[before]? = some statement →
    ∃ instr, statement.instr outline.labels = .ok instr
  here : ∃ statement, outline.statements[place]? = some statement ∧
    statement.instr outline.labels = .error error

variable {outline : Outline} {error : SourceError}

theorem exists_failsAt (refused : outline.encode = .error error) :
    ∃ place, outline.FailsAt place error := by
  obtain ⟨before, first, after, same, computed, failed⟩ := List.exists_of_mapM_eq_error refused
  refine ⟨before.length, refused, fun place lower statement get => ?_, first, ?_, ?_⟩
  · rw [← Array.getElem?_toList, same, List.getElem?_append_left lower] at get
    obtain ⟨word, encoded⟩ := computed statement (List.mem_of_getElem? get)
    cases found : statement.instr outline.labels with
    | ok instr => exact ⟨instr, rfl⟩
    | error mistake =>
      rw [found] at encoded
      cases encoded
  · rw [← Array.getElem?_toList, same, List.getElem?_append_right (Nat.le_refl _), Nat.sub_self]
    rfl
  · cases found : first.instr outline.labels with
    | ok instr =>
      rw [found] at failed
      cases failed
    | error mistake =>
      rw [found] at failed
      cases failed
      rfl

/-- The words of an outline are its words with more labels. -/
theorem encode_of_extends {labels : LabelTable} (more : outline.labels.Extends labels)
    {words : List Word} (encoded : outline.encode = .ok words) :
    { outline with labels }.encode = .ok words := by
  rw [encode_eq_ok_iff] at encoded ⊢
  refine encoded.imp ?_
  rintro statement word ⟨instr, found, same⟩
  exact ⟨instr, Statement.instr_of_extends more found, same⟩

/-- With more labels, encoding fails at no statement before the one at which it failed. -/
theorem FailsAt.le_of_extends {labels : LabelTable} (more : outline.labels.Extends labels)
    {place later : Nat} {other : SourceError} (fails : outline.FailsAt place error)
    (failsLater : { outline with labels }.FailsAt later other) : place ≤ later := by
  obtain ⟨statement, get, refused⟩ := failsLater.here
  by_contra before
  obtain ⟨instr, found⟩ := fails.earlier later (Nat.lt_of_not_le before) statement get
  rw [Statement.instr_of_extends more found] at refused
  cases refused

/-- **More labels undo no encoding.** However many labels are inserted whose names are ones that
labels may have, an outline that can be encoded is encoded to the same words; one that fails, fails
at a statement, and with the labels it can be encoded or fails at that statement or a later one. -/
theorem encode_insertAll (outline : Outline) {labels : List (String × Address)}
    (valid : ∀ label ∈ labels, IsLabelName label.1) :
    let extended := { outline with labels := outline.labels.insertAll labels }
    (∀ words, outline.encode = .ok words → extended.encode = .ok words) ∧
      (∀ error, outline.encode = .error error → ∃ place, outline.FailsAt place error) ∧
      ∀ place error, outline.FailsAt place error → (∃ words, extended.encode = .ok words) ∨
        ∃ later other, place ≤ later ∧ extended.FailsAt later other := by
  intro extended
  have more := outline.labels.extends_insertAll valid
  refine ⟨fun words => encode_of_extends more, fun error => exists_failsAt, ?_⟩
  intro place error fails
  cases encoded : extended.encode with
  | ok words => exact .inl ⟨words, rfl⟩
  | error other =>
    obtain ⟨later, failsLater⟩ := exists_failsAt encoded
    exact .inr ⟨later, other, fails.le_of_extends more failsLater, failsLater⟩

/-- One more label has the name of a declared one and another has a name that was missing. -/
theorem encode_insertAll_jumps :
    let labels : List (String × Address) := [("a", 9), ("b", 5)]
    (∀ label ∈ labels, IsLabelName label.1) ∧
      ∃ outline place error, ofSource "a:\nJMP a\nJMP b\nJMP c\n" = .ok outline ∧
        outline.FailsAt place error ∧
        let extended := { outline with labels := outline.labels.insertAll labels }
        (∃ words, extended.encode = .ok words) ∨
          ∃ later other, place ≤ later ∧ extended.FailsAt later other := by
  intro labels
  have valid (label : String × Address) (member : label ∈ labels) : IsLabelName label.1 := by
    have accepted : ∀ label ∈ labels, isLabelName label.1 = true := by decide +kernel
    exact isLabelName_iff.mp (accepted label member)
  refine ⟨valid, ?_⟩
  have missing : ((ofSource "a:\nJMP a\nJMP b\nJMP c\n").toOption.map fun outline =>
      outline.encode.toOption) = some none := by decide +kernel
  cases outlined : ofSource "a:\nJMP a\nJMP b\nJMP c\n" with
  | error mistake =>
    rw [outlined] at missing
    cases missing
  | ok outline =>
    obtain ⟨-, fails, later⟩ := encode_insertAll outline valid
    rw [outlined] at missing
    cases encoded : outline.encode with
    | ok words =>
      rw [Except.toOption, Option.map_some, encoded] at missing
      cases missing
    | error error =>
      obtain ⟨place, failsAt⟩ := fails error encoded
      exact ⟨outline, place, error, rfl, failsAt, later place error failsAt⟩

end Outline

end Asm16
