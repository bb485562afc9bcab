/-
**Renaming labels does not change the program.**

* `Relabels` — new names that labels may have, different ones for different labels.
* `LabelTable.Renamed` — a label table with its names replaced; by `LabelTable.Renamed.get?_eq` a
  new name is bound to the address of the old one.
* `Correspondence.renaming` — under these, labels are declared alike and operands resolve alike.
* `Source.WellFormed.matches_of_wording` — in a source that is a program, what is no label is a
  register or a numeral, so that its lines match those of the renamed source.
* `Source.assemble_renamed` — a source with its labels renamed is assembled to the same words, and
  to the same labels with their new names.
-/

import Asm16.Proofs.Assembly.Correspondence
import Asm16.Proofs.Assembly.Renaming
import Mathlib.Data.Set.Function

namespace Asm16

/-- New names for labels: they are names that labels may have, and different labels get different
ones. -/
structure Relabels (rename : String → String) (names : List String) : Prop where
  labels : ∀ name ∈ names, IsLabelName name
  proper : ∀ name ∈ names, IsLabelName (rename name)
  injective : Set.InjOn rename {name | name ∈ names}

/-! ### Renamed tables -/

namespace LabelTable

/-- A name that is none of the declared ones is bound to no address. -/
theorem get?_eq_none_of_not_mem {table : LabelTable} {name : String}
    (undeclared : name ∉ table.entries.map Prod.fst) : table.get? name = none := by
  refine List.lookup_eq_none_iff.mpr fun entry member => bne_iff_ne.mpr ?_
  rintro rfl
  exact undeclared (List.mem_map_of_mem member)

/-- A label table with its names, all of them given ones, replaced. -/
structure Renamed (rename : String → String) (names : List String) (table other : LabelTable) :
    Prop where
  listed : ∀ name ∈ table.entries.map Prod.fst, name ∈ names
  entries : other.entries = table.entries.map (Prod.map rename id)

namespace Renamed

variable {rename : String → String} {names : List String} {table other : LabelTable}
  {name token : String}

/-- A new name is bound to the address of the old one. -/
theorem get?_eq (renamed : table.Renamed rename names other) (relabels : Relabels rename names)
    (listed : name ∈ names) : other.get? (rename name) = table.get? name := by
  have within := renamed.listed
  unfold get?
  rw [renamed.entries]
  generalize table.entries = entries at within
  induction entries with
  | nil => rfl
  | cons entry entries ih =>
    rw [List.map_cons, List.forall_mem_cons] at within
    have same : (rename name == rename entry.1) = (name == entry.1) := by
      rw [Bool.eq_iff_iff, beq_iff_eq, beq_iff_eq]
      exact ⟨fun same => relabels.injective listed within.1 same, congrArg rename⟩
    rw [List.map_cons, List.lookup_cons, List.lookup_cons, ih within.2, Prod.map_fst, same]
    rfl

/-- Only names that labels may have are bound. -/
theorem get?_eq_none (renamed : table.Renamed rename names other)
    (relabels : Relabels rename names) (noLabel : ¬ IsLabelName token) :
    table.get? token = none ∧ other.get? token = none := by
  refine ⟨get?_eq_none_of_not_mem fun member => ?_, get?_eq_none_of_not_mem fun member => ?_⟩
  · exact noLabel (relabels.labels token (renamed.listed token member))
  · rw [renamed.entries, List.map_map] at member
    obtain ⟨entry, inEntries, rfl⟩ := List.mem_map.mp member
    have listed := renamed.listed entry.1 (List.mem_map_of_mem inEntries)
    exact noLabel (relabels.proper entry.1 listed)

/-- A label is declared under its new name as it is under its old one. -/
theorem related_insert (renamed : table.Renamed rename names other)
    (relabels : Relabels rename names) (listed : name ∈ names) (address : Address) :
    Except.Related Eq (Renamed rename names) (table.insert name address)
      (other.insert (rename name) address) := by
  have same := renamed.get?_eq relabels listed
  cases inserted : table.insert name address with
  | error first =>
    rw [insert_eq_error_iff.mp inserted] at same
    rw [insert_eq_error_iff.mpr same]
    exact .error rfl
  | ok extended =>
    rw [get?_eq_none_of_insert inserted] at same
    obtain ⟨following, insertedToo⟩ := exists_insert same address
    rw [insertedToo]
    refine .ok ⟨fun declared member => ?_, ?_⟩
    · rw [entries_of_insert inserted, List.map_append, List.mem_append] at member
      rcases member with member | last
      · exact renamed.listed declared member
      · obtain rfl : declared = name := by simpa using last
        exact listed
    · rw [entries_of_insert inserted, entries_of_insert insertedToo, renamed.entries,
        List.map_append]
      rfl

end Renamed

end LabelTable

/-! ### Renamed operands -/

namespace Operand

/-- What a token stands for depends on the address that it is bound to. -/
theorem resolve_congr {labels table : LabelTable} {token : String}
    (same : labels.get? token = table.get? token) : resolve labels token = resolve table token := by
  rw [resolve, resolve, same]

/-- A name that labels may have stands for the address that it is bound to. -/
theorem resolve_of_isLabelName (labels : LabelTable) {token : String} (label : IsLabelName token) :
    resolve labels token = match labels.get? token with
      | some address => .ok (.value address.val)
      | none => .error (.unresolvedOperand token) := by
  have noNumeral : ¬ Numeral.isDecimal token.toList = true :=
    fun decimal => label.not_isNumeral (Numeral.isDecimal_iff.mp decimal)
  have unnamed := Register.ofName?_eq_none_iff.mpr label.unlikeRegisters
  cases bound : labels.get? token with
  | some address => simp only [resolve, unnamed, bound]
  | none => simp only [resolve, unnamed, bound, if_neg noNumeral]

end Operand

/-- An operand names a label, which is renamed, or nothing that a label could be called. -/
def RenamedOperand (rename : String → String) (names : List String) (first second : String) :
    Prop :=
  first ∈ names ∧ second = rename first ∨ ¬ IsLabelName first ∧ second = first

theorem RenamedOperand.related_resolve {rename : String → String} {names : List String}
    {table other : LabelTable} {first second : String} (relabels : Relabels rename names)
    (renamed : table.Renamed rename names other)
    (operand : RenamedOperand rename names first second) :
    Except.Related (Mistake.Corresponds fun _ _ => True) Eq (Operand.resolve table first)
      (Operand.resolve other second) := by
  rcases operand with ⟨listed, rfl⟩ | ⟨noLabel, rfl⟩
  · rw [Operand.resolve_of_isLabelName table (relabels.labels first listed),
      Operand.resolve_of_isLabelName other (relabels.proper first listed),
      renamed.get?_eq relabels listed]
    cases table.get? first with
    | some address => exact .ok rfl
    | none => exact .error (.unresolvedOperand trivial)
  -- What no label could be called is bound in neither table, so it stands for the same in both.
  · obtain ⟨unbound, unboundToo⟩ := renamed.get?_eq_none relabels noLabel
    rw [Operand.resolve_congr (unbound.trans unboundToo.symm)]
    exact .refl (.refl fun _ => trivial) (fun _ => rfl) _

/-- Sources with the same labels under different names. -/
def Correspondence.renaming {rename : String → String} {names : List String}
    (relabels : Relabels rename names) : Correspondence where
  quoted _ _ := True
  names first second := first ∈ names ∧ second = rename first
  operands := RenamedOperand rename names
  tables := LabelTable.Renamed rename names
  quoted_of_caseVariant _ := trivial
  quoted_of_names _ := trivial
  quoted_of_operands _ := trivial
  valid := by
    rintro name _ ⟨listed, rfl⟩
    rw [Outline.isLabelName_iff.mpr (relabels.labels name listed),
      Outline.isLabelName_iff.mpr (relabels.proper name listed)]
  empty := ⟨nofun, rfl⟩
  insert := by
    rintro table other renamed name _ ⟨listed, rfl⟩ address
    exact renamed.related_insert relabels listed address
  resolve renamed _ _ operand := operand.related_resolve relabels renamed

namespace Source

/-! ### Sources that are programs -/

section Program

variable {lines : List Line}

theorem isNameCharacter_of_isAlphanum {c : Char} (alphanumeric : c.isAlphanum = true) :
    IsNameCharacter c :=
  isNameCharacter_iff.mp (by rw [Outline.isNameCharacter, alphanumeric, Bool.true_or])

/-- A token that stands for something is made of name characters. -/
theorem Denotes.characters (names : ∀ name ∈ labelNames lines, IsLabelName name) {token : String}
    {operand : Operand} (denotes : Denotes lines token operand) :
    ∀ c ∈ token.toList, IsNameCharacter c := by
  cases denotes with
  | register named =>
    obtain ⟨letter, capital, text⟩ := Register.named_iff.mp named
    rw [text, List.forall_mem_cons]
    refine ⟨?_, fun c member => .inr (.inr (.inl (isDigit_of_mem_toDigits member)))⟩
    rcases capital with rfl | rfl <;> exact isNameCharacter_of_isAlphanum rfl
  | label _ declared => exact (names _ (mem_labelNames_iff.mpr ⟨_, declared⟩)).characters
  | numeral _ numeral => exact fun c member => .inr (.inr (.inl (numeral.2 c member)))

/-- An operand that stands for something names a label, or it is nothing that a label could be
called. -/
theorem Denotes.mem_or_not_isLabelName {token : String} {operand : Operand}
    (denotes : Denotes lines token operand) : token ∈ labelNames lines ∨ ¬ IsLabelName token := by
  cases denotes with
  | register named => exact .inr fun label => label.unlikeRegisters _ named
  | label _ declared => exact .inl (mem_labelNames_iff.mpr ⟨_, declared⟩)
  | numeral _ numeral => exact .inr fun label => label.not_isNumeral numeral

theorem WellFormed.exists_denotes (wellFormed : WellFormed lines) {line : Line}
    (member : line ∈ lines) {mnemonic : Token} {operands : List Token}
    (content : line.content = .instruction mnemonic operands) {token : Token}
    (inOperands : token ∈ operands) : ∃ operand, Denotes lines token.text operand := by
  obtain ⟨opcode, -, accepted⟩ := wellFormed.instructions line member mnemonic operands content
  obtain ⟨slot, -, accepts⟩ := List.exists_of_forall₂_left accepted inOperands
  cases slot with
  | register =>
    obtain ⟨register, denotes⟩ := accepts
    exact ⟨_, denotes⟩
  | value largest =>
    obtain ⟨number, -, denotes⟩ := accepts
    exact ⟨_, denotes⟩

theorem mem_labelNames {line : Line} (member : line ∈ lines) {name : Token}
    (content : line.content = .label name) : name.text ∈ labelNames lines :=
  List.mem_filterMap.mpr ⟨line, member, by rw [Line.label?, content]⟩

/-- The lines of a program are made of name characters. -/
theorem WellFormed.tidy (wellFormed : WellFormed lines) {line : Line} (member : line ∈ lines) :
    line.content.Tidy (labelNames lines) := by
  refine ⟨fun token inTokens => ?_, fun name => mem_labelNames member⟩
  cases content : line.content with
  | blank | comment =>
    rw [content] at inTokens
    cases inTokens
  | label name =>
    rw [content] at inTokens
    obtain rfl := List.mem_singleton.mp inTokens
    exact (wellFormed.names _ (mem_labelNames member content)).characters
  | instruction mnemonic operands =>
    rw [content] at inTokens
    rcases List.mem_cons.mp inTokens with rfl | inOperands
    · obtain ⟨opcode, spelled, -⟩ :=
        wellFormed.instructions line member token operands content
      have word : IsWord token.text.toList :=
        SameLetters.isWord spelled (isWord_mnemonic opcode)
      exact fun c inText => isNameCharacter_of_isAlphanum (word.2 c inText)
    · obtain ⟨operand, denotes⟩ := wellFormed.exists_denotes member content inOperands
      exact denotes.characters wellFormed.names

/-- A line that says what the line of a program says, its labels renamed, matches that line. -/
theorem WellFormed.matches_of_wording (wellFormed : WellFormed lines) (rename : String → String)
    {line other : Line} (member : line ∈ lines)
    (said : other.content.wording = line.content.wording.renamed rename (labelNames lines)) :
    line.content.Matches (fun first second => first ∈ labelNames lines ∧ second = rename first)
      (RenamedOperand rename (labelNames lines)) other.content := by
  have renamed {name : String} (known : name ∈ labelNames lines ∨ ¬ IsLabelName name) :
      RenamedOperand rename (labelNames lines) name
        (replaceName rename (labelNames lines) name) := by
    unfold replaceName
    split
    · next listed => exact .inl ⟨listed, rfl⟩
    · next unlisted => exact .inr ⟨known.resolve_left unlisted, rfl⟩
  cases content : line.content with
  | blank =>
    rw [content] at said
    cases content' : other.content <;> rw [content'] at said <;> cases said
    exact .blank
  | comment =>
    rw [content] at said
    cases content' : other.content <;> rw [content'] at said <;> cases said
    exact .comment
  | label name =>
    rw [content] at said
    cases content' : other.content with
    | label name' =>
      rw [content'] at said
      exact .label ⟨mem_labelNames member content, Wording.label.inj said⟩
    | blank | comment | instruction =>
      rw [content'] at said
      cases said
  | instruction mnemonic operands =>
    rw [content] at said
    cases content' : other.content with
    | instruction spelling tokens =>
      rw [content'] at said
      obtain ⟨spelled, texts⟩ := Wording.instruction.inj said
      refine .instruction (.of_eq spelled.symm) ?_
      rw [List.map_map, ← List.forall₂_eq_eq_eq, List.forall₂_map_left_iff,
        List.forall₂_map_right_iff] at texts
      refine (List.forall₂_mem_zip texts.flip).imp ?_
      rintro token counterpart ⟨beside, same⟩
      obtain ⟨operand, denotes⟩ :=
        wellFormed.exists_denotes member content (List.of_mem_zip beside).1
      exact same ▸ renamed denotes.mem_or_not_isLabelName
    | blank | comment | label =>
      rw [content'] at said
      cases said

end Program

/-- **Renaming labels does not change the program.** With new names that labels may have, different
ones for different labels, a source is assembled to the same words, and to the same labels at the
same addresses under their new names. -/
theorem assemble_renamed {source : String} {program : Assembly}
    (assembled : assemble source = .ok program) {rename : String → String}
    (proper : ∀ name ∈ labelNames (lines source), IsLabelName (rename name))
    (injective : Set.InjOn rename {name | name ∈ labelNames (lines source)}) :
    ∃ counterpart, assemble (renamed rename source) = .ok counterpart ∧
      counterpart.words = program.words ∧
      counterpart.labels.entries = program.labels.entries.map (Prod.map rename id) := by
  have wellFormed := wellFormed_of_assemble assembled
  have relabels : Relabels rename (labelNames (lines source)) :=
    ⟨wellFormed.names, proper, injective⟩
  have said := wordings_renamed proper fun line => wellFormed.tidy
  have alike := (List.forall₂_mem_zip said).imp fun line other ⟨beside, same⟩ =>
    wellFormed.matches_of_wording rename (List.of_mem_zip beside).1 same
  have related := (Correspondence.renaming relabels).related_assembly alike
  rw [← assemble_eq_ofLines, ← assemble_eq_ofLines, assembled] at related
  generalize assemble (renamed rename source) = outcome at related
  cases related with
  | ok same => exact ⟨_, rfl, same.1.symm, same.2.entries⟩

/-- Labels that look like a register and like a mnemonic get each other's looks; mnemonics and
comments stay. -/
theorem assemble_renamed_lookalikes :
    let source := "R16: # é R16\n JMP R16\nadd :\n  add R1,R2, r3 # add\n JMPZ R1, add"
    let rename := fun name : String => if name = "R16" then "add" else "R01"
    (∃ program, assemble source = .ok program) ∧
      (∀ name ∈ labelNames (lines source), IsLabelName (rename name)) ∧
      Set.InjOn rename {name | name ∈ labelNames (lines source)} ∧
      renamed rename source =
        "add: # é R16\n JMP add\nR01 :\n  add R1,R2, r3 # add\n JMPZ R1, R01" ∧
      ∃ counterpart, assemble (renamed rename source) = .ok counterpart ∧
        counterpart.words = [0x8000, 0x3123, 0x9101] ∧
        counterpart.labels.entries = [("add", 0), ("R01", 1)] := by
  intro source rename
  have names : labelNames (lines source) = ["R16", "add"] := by decide +kernel
  have words : (assemble source).toOption.map Assembly.words = some [0x8000, 0x3123, 0x9101] := by
    decide +kernel
  have entries : (assemble source).toOption.map (·.labels.entries) =
      some [("R16", 0), ("add", 1)] := by
    decide +kernel
  have proper : ∀ name ∈ labelNames (lines source), IsLabelName (rename name) := by
    simp only [names, ← Outline.isLabelName_iff]
    decide
  have injective : Set.InjOn rename {name | name ∈ labelNames (lines source)} := by
    simp only [names, Set.InjOn, Set.mem_ofPred_eq]
    decide
  cases assembled : assemble source with
  | error mistake =>
    rw [assembled] at words
    cases words
  | ok program =>
    rw [assembled] at words entries
    obtain ⟨counterpart, assembledToo, same, labels⟩ := assemble_renamed assembled proper injective
    rw [Option.some.inj words] at same
    rw [show program.labels.entries = _ from Option.some.inj entries] at labels
    exact ⟨⟨program, rfl⟩, proper, injective, by decide +kernel, counterpart, assembledToo, same,
      labels⟩

end Source

end Asm16
