/-
**The outline of a source describes its lines.**

* `Source.Admits` — the rules for one more line after the ones before it.
* `Source.arranged_concat` — the rules for labels and for the number of instructions are the rules
  for each line after the ones before it.
* `Outline.Describes` — an outline holds the labels and the instructions of the lines.
* `Outline.Adds` — what a line adds to an outline, if it can be added.
* `Outline.Describes.admits`, `Outline.exists_addLine` — exactly the lines that the rules admit are
  added; by `Outline.Describes.concat` the outline then describes that line, too.
* `Outline.exists_ofLines_iff`, `Outline.describes_ofLines` — the same for the lines of a source.
-/

import Asm16.Proofs.Assembly.Reading
import Asm16.Proofs.Pointwise

namespace Asm16

/-! ### One more line -/

namespace Source

/-- The rules for one more line: there is room in memory for the instruction, or for the one that
the label points at, and the label has a name that labels may have and no other one has. -/
structure Admits (lines : List Line) (line : Line) : Prop where
  instruction : line.isInstruction = true → lines.countP Line.isInstruction < 4096
  label : ∀ name, line.label? = some name → IsLabelName name ∧
    lines.countP Line.isInstruction < 4096 ∧ name ∉ labelNames lines

theorem labelNames_concat (lines : List Line) (line : Line) :
    labelNames (lines ++ [line]) = labelNames lines ++ line.label?.toList := by
  unfold labelNames
  rw [List.filterMap_append, List.filterMap_cons]
  cases line.label? <;> rfl

theorem countP_concat (lines : List Line) (line : Line) :
    (lines ++ [line]).countP Line.isInstruction =
      lines.countP Line.isInstruction + if line.isInstruction = true then 1 else 0 := by
  rw [List.countP_append, List.countP_singleton]

/-- The last line declares its label, with all instructions before it. -/
theorem declares_concat {lines : List Line} {line : Line} {name : String} {address : Nat} :
    Declares (lines ++ [line]) name address ↔ Declares lines name address ∨
      (line.label? = some name ∧ lines.countP Line.isInstruction = address) := by
  constructor
  · rintro ⟨before, declaration, after, split, label, count⟩
    rcases List.eq_nil_or_concat after with rfl | ⟨rest, last, rfl⟩
    · obtain ⟨rfl, same⟩ := List.append_inj' split rfl
      obtain rfl : line = declaration := List.head_eq_of_cons_eq same
      exact .inr ⟨label, count⟩
    · have regrouped : lines ++ [line] = (before ++ declaration :: rest) ++ [last] := by
        rw [split, List.concat_eq_append, List.append_assoc, List.cons_append]
      obtain ⟨rfl, -⟩ := List.append_inj' regrouped rfl
      exact .inl ⟨before, declaration, rest, rfl, label, count⟩
  · rintro (⟨before, declaration, after, rfl, label, count⟩ | ⟨label, count⟩)
    · exact ⟨before, declaration, after ++ [line], by simp, label, count⟩
    · exact ⟨lines, line, [], rfl, label, count⟩

theorem mem_labelNames_iff {lines : List Line} {name : String} :
    name ∈ labelNames lines ↔ ∃ address, Declares lines name address := by
  unfold labelNames
  rw [List.mem_filterMap]
  constructor
  · rintro ⟨line, member, label⟩
    obtain ⟨before, after, split⟩ := List.append_of_mem member
    exact ⟨_, before, line, after, split, label, rfl⟩
  · rintro ⟨address, before, line, after, split, label, -⟩
    exact ⟨line, by rw [split]; simp, label⟩

/-- The rules for lines are the rules for each line after the ones before it. -/
theorem arranged_concat {lines : List Line} {line : Line} :
    Arranged (lines ++ [line]) ↔ Arranged lines ∧ Admits lines line := by
  constructor
  · rintro ⟨fits, names, distinct, inMemory⟩
    rw [countP_concat] at fits
    rw [labelNames_concat] at names distinct
    refine ⟨⟨by omega, fun name member => names name (List.mem_append_left _ member),
      (List.nodup_append.mp distinct).1,
      fun name address declares => inMemory name address (declares_concat.mpr (.inl declares))⟩,
      ⟨fun instruction => ?_, fun name label => ⟨?_, ?_, ?_⟩⟩⟩
    · rw [if_pos instruction] at fits
      omega
    · exact names name (List.mem_append_right _ (by simp [label]))
    · exact inMemory name _ (declares_concat.mpr (.inr ⟨label, rfl⟩))
    · intro member
      exact (List.nodup_append.mp distinct).2.2 name member name (by simp [label]) rfl
  · rintro ⟨⟨fits, names, distinct, inMemory⟩, ⟨instruction, label⟩⟩
    refine ⟨?_, ?_, ?_, ?_⟩
    · rw [countP_concat]
      by_cases isInstruction : line.isInstruction = true
      · rw [if_pos isInstruction]
        exact instruction isInstruction
      · rwa [if_neg isInstruction]
    · intro name member
      rw [labelNames_concat, List.mem_append, Option.mem_toList] at member
      rcases member with member | last
      · exact names name member
      · exact (label name last).1
    · rw [labelNames_concat, List.nodup_append]
      refine ⟨distinct, by cases line.label? <;> simp, ?_⟩
      rintro name member other last rfl
      exact (label name (Option.mem_toList.mp last)).2.2 member
    · intro name address declares
      rcases declares_concat.mp declares with declares | ⟨last, rfl⟩
      · exact inMemory name address declares
      · exact (label name last).2.1

end Source

/-! ### Adding a label -/

namespace LabelTable

theorem get?_eq_none_of_insert {table extended : LabelTable} {name : String} {address : Address}
    (inserted : table.insert name address = .ok extended) : table.get? name = none := by
  cases get : table.get? name with
  | none => rfl
  | some first =>
    rw [insert_eq_error_iff.mpr get] at inserted
    cases inserted

theorem entries_of_insert {table extended : LabelTable} {name : String} {address : Address}
    (inserted : table.insert name address = .ok extended) :
    extended.entries = table.entries ++ [(name, address)] := by
  unfold insert at inserted
  split at inserted
  · cases inserted
  · cases inserted
    rfl

theorem exists_insert {table : LabelTable} {name : String} (unbound : table.get? name = none)
    (address : Address) : ∃ extended, table.insert name address = .ok extended := by
  cases inserted : table.insert name address with
  | ok extended => exact ⟨extended, rfl⟩
  | error first =>
    rw [insert_eq_error_iff.mp inserted] at unbound
    cases unbound

end LabelTable

/-! ### The outline of the lines -/

namespace Outline

open Source

/-- An outline holds the instructions of the lines, in order, and their labels, in the order of
their declarations, with the addresses for which they stand. -/
structure Describes (lines : List Line) (outline : Outline) : Prop where
  statements : List.Forall₂
    (fun line statement => line.content = .instruction statement.mnemonic statement.operands)
    (lines.filter Line.isInstruction) outline.statements.toList
  names : outline.labels.entries.map Prod.fst = labelNames lines
  addresses : ∀ name address,
    Declares lines name address ↔
      ∃ bound, outline.labels.get? name = some bound ∧ bound.val = address

theorem Describes.size {lines : List Line} {outline : Outline}
    (describes : Describes lines outline) :
    outline.statements.size = lines.countP Line.isInstruction := by
  rw [List.countP_eq_length_filter, describes.statements.length_eq, Array.length_toList]

theorem nextAddress?_eq_some_iff {outline : Outline} {address : Address} :
    outline.nextAddress? = some address ↔ outline.statements.size = address.val := by
  unfold nextAddress? Address.ofNat?
  by_cases room : outline.statements.size < 4096
  · rw [dif_pos room, Option.some.injEq, Fin.ext_iff]
  · rw [dif_neg room]
    refine ⟨fun none => (by cases none), fun size => ?_⟩
    exact absurd (size ▸ address.isLt) room

/-- A name is bound exactly when a label has it. -/
theorem Describes.get?_eq_none_iff {lines : List Line} {outline : Outline}
    (describes : Describes lines outline) {name : String} :
    outline.labels.get? name = none ↔ name ∉ labelNames lines := by
  rw [mem_labelNames_iff]
  constructor
  · rintro unbound ⟨address, declares⟩
    obtain ⟨bound, get, -⟩ := (describes.addresses name address).mp declares
    rw [unbound] at get
    cases get
  · intro undeclared
    cases get : outline.labels.get? name with
    | none => rfl
    | some bound =>
      exact absurd ⟨bound.val, (describes.addresses name _).mpr ⟨bound, get, rfl⟩⟩ undeclared

theorem describes_empty : Describes [] empty where
  statements := .nil
  names := rfl
  addresses name address := by
    constructor
    · rintro ⟨before, line, after, split, -⟩
      cases before <;> cases split
    · rintro ⟨bound, get, -⟩
      cases get

theorem Describes.concat_other {lines : List Line} {outline : Outline} {line : Line}
    (describes : Describes lines outline) (noLabel : line.label? = none)
    (noInstruction : line.isInstruction = false) : Describes (lines ++ [line]) outline where
  statements := by
    rw [List.filter_append, List.filter_cons_of_neg (by simp [noInstruction]), List.filter_nil,
      List.append_nil]
    exact describes.statements
  names := by
    rw [labelNames_concat, noLabel, Option.toList_none, List.append_nil]
    exact describes.names
  addresses name address := by
    rw [declares_concat, ← describes.addresses name address, noLabel]
    simp

theorem Describes.concat_label {lines : List Line} {outline : Outline} {line : Line}
    (describes : Describes lines outline) {name : String} (label : line.label? = some name)
    (noInstruction : line.isInstruction = false) {address : Address}
    (next : outline.nextAddress? = some address) {labels : LabelTable}
    (inserted : outline.labels.insert name address = .ok labels) :
    Describes (lines ++ [line]) { outline with labels } where
  statements := by
    rw [List.filter_append, List.filter_cons_of_neg (by simp [noInstruction]), List.filter_nil,
      List.append_nil]
    exact describes.statements
  names := by
    rw [labelNames_concat, label, LabelTable.entries_of_insert inserted, List.map_append,
      describes.names]
    rfl
  addresses other number := by
    have count : lines.countP Line.isInstruction = address.val :=
      describes.size.symm.trans (nextAddress?_eq_some_iff.mp next)
    have unbound : outline.labels.get? name = none := LabelTable.get?_eq_none_of_insert inserted
    rw [declares_concat, describes.addresses other number, label, count]
    simp only [LabelTable.get?_of_insert inserted]
    by_cases same : other = name
    · subst same
      rw [if_pos rfl, unbound]
      simp
    · rw [if_neg same]
      simp [Ne.symm same]

theorem Describes.concat_instruction {lines : List Line} {outline : Outline} {line : Line}
    (describes : Describes lines outline) {mnemonic : Token} {operands : List Token}
    (content : line.content = .instruction mnemonic operands) (number : Nat) (address : Address) :
    Describes (lines ++ [line]) { outline with
      statements := outline.statements.push ⟨number, address, mnemonic, operands⟩ } where
  statements := by
    have isInstruction : line.isInstruction = true := by rw [Line.isInstruction, content]
    rw [List.filter_append, List.filter_cons_of_pos isInstruction, List.filter_nil,
      Array.toList_push]
    exact List.rel_append describes.statements (.cons content .nil)
  names := by
    have noLabel : line.label? = none := by rw [Line.label?, content]
    rw [labelNames_concat, noLabel, Option.toList_none, List.append_nil]
    exact describes.names
  addresses name address := by
    have noLabel : line.label? = none := by rw [Line.label?, content]
    rw [declares_concat, ← describes.addresses name address, noLabel]
    simp

/-- What a line adds to an outline: nothing, a label or a statement. -/
inductive Adds (outline : Outline) (line : Line) : Outline → Prop
  | other (noLabel : line.label? = none) (noInstruction : line.isInstruction = false) :
      Adds outline line outline
  | label {name : String} {address : Address} {labels : LabelTable}
      (label : line.label? = some name) (noInstruction : line.isInstruction = false)
      (valid : IsLabelName name) (next : outline.nextAddress? = some address)
      (inserted : outline.labels.insert name address = .ok labels) :
      Adds outline line { outline with labels }
  | instruction {mnemonic : Token} {operands : List Token} {address : Address}
      (content : line.content = .instruction mnemonic operands)
      (next : outline.nextAddress? = some address) :
      Adds outline line { outline with
        statements := outline.statements.push ⟨line.number, address, mnemonic, operands⟩ }

theorem adds_of_addLine {total : Nat} {outline extended : Outline} {line : Line}
    (added : addLine total outline line = .ok extended) : Adds outline line extended := by
  unfold addLine at added
  cases content : line.content with
  | blank | comment =>
    rw [content] at added
    cases added
    exact .other (by rw [Line.label?, content]) (by rw [Line.isInstruction, content])
  | label name =>
    have label : line.label? = some name.text := by rw [Line.label?, content]
    have noInstruction : line.isInstruction = false := by rw [Line.isInstruction, content]
    simp only [content] at added
    split at added
    · next valid =>
      split at added
      · cases added
      · next address next =>
        split at added
        · cases added
        · next labels inserted =>
          cases added
          exact .label label noInstruction (isLabelName_iff.mp valid) next inserted
    · cases added
  | instruction mnemonic operands =>
    simp only [content] at added
    split at added
    · cases added
    · next address next =>
      cases added
      exact .instruction content next

variable {lines : List Line} {outline extended : Outline} {line : Line}

theorem Describes.countP_lt (describes : Describes lines outline) {address : Address}
    (next : outline.nextAddress? = some address) : lines.countP Line.isInstruction < 4096 := by
  rw [← describes.size, nextAddress?_eq_some_iff.mp next]
  exact address.isLt

/-- A line that adds to an outline is one that the rules admit. -/
theorem Describes.admits (describes : Describes lines outline)
    (adds : Adds outline line extended) : Admits lines line := by
  cases adds with
  | other noLabel noInstruction =>
    rw [← Bool.not_eq_true] at noInstruction
    exact ⟨fun instruction => absurd instruction noInstruction, by rw [noLabel]; nofun⟩
  | label label noInstruction valid next inserted =>
    rw [← Bool.not_eq_true] at noInstruction
    refine ⟨fun instruction => absurd instruction noInstruction, fun other same => ?_⟩
    obtain rfl := Option.some.inj (label.symm.trans same)
    have unbound := LabelTable.get?_eq_none_of_insert inserted
    exact ⟨valid, describes.countP_lt next, describes.get?_eq_none_iff.mp unbound⟩
  | instruction content next =>
    have noLabel : line.label? = none := by rw [Line.label?, content]
    exact ⟨fun _ => describes.countP_lt next, by rw [noLabel]; nofun⟩

theorem Describes.concat (describes : Describes lines outline)
    (adds : Adds outline line extended) : Describes (lines ++ [line]) extended := by
  cases adds with
  | other noLabel noInstruction => exact describes.concat_other noLabel noInstruction
  | label label noInstruction _ next inserted =>
    exact describes.concat_label label noInstruction next inserted
  | instruction content => exact describes.concat_instruction content _ _

/-- A line that the rules admit can be added. -/
theorem exists_addLine (total : Nat) (describes : Describes lines outline)
    (admits : Admits lines line) : ∃ extended, addLine total outline line = .ok extended := by
  have exists_next (room : lines.countP Line.isInstruction < 4096) :
      ∃ address, outline.nextAddress? = some address :=
    ⟨⟨_, room⟩, nextAddress?_eq_some_iff.mpr describes.size⟩
  unfold addLine
  cases content : line.content with
  | blank | comment => exact ⟨outline, rfl⟩
  | label name =>
    obtain ⟨valid, room, fresh⟩ := admits.label name.text (by rw [Line.label?, content])
    obtain ⟨address, next⟩ := exists_next room
    obtain ⟨labels, inserted⟩ :=
      LabelTable.exists_insert (describes.get?_eq_none_iff.mpr fresh) address
    refine ⟨{ outline with labels }, ?_⟩
    simp only [isLabelName_iff.mpr valid, if_true, next, inserted]
  | instruction mnemonic operands =>
    obtain ⟨address, next⟩ := exists_next (admits.instruction (by rw [Line.isInstruction, content]))
    exact ⟨_, by simp only [next]; rfl⟩

/-! ### The outline of a source -/

/-- Lines that have been outlined obey the rules, and the outline describes them. -/
theorem describes_of_foldlM {total : Nat} {lines : List Line} {outline : Outline}
    (outlined : lines.foldlM (addLine total) empty = .ok outline) :
    Arranged lines ∧ Describes lines outline := by
  induction lines using List.reverseRecOn generalizing outline with
  | nil =>
    cases outlined
    refine ⟨⟨Nat.zero_le _, fun name member => (by cases member), .nil, ?_⟩, describes_empty⟩
    intro name address declares
    obtain ⟨bound, get, -⟩ := (describes_empty.addresses name address).mp declares
    cases get
  | append_singleton lines line ih =>
    obtain ⟨prior, before, added⟩ := List.foldlM_concat_eq_ok_iff.mp outlined
    obtain ⟨arranged, describes⟩ := ih before
    have adds := adds_of_addLine added
    exact ⟨arranged_concat.mpr ⟨arranged, describes.admits adds⟩, describes.concat adds⟩

/-- Lines that obey the rules can be outlined. -/
theorem exists_foldlM (total : Nat) {lines : List Line} (arranged : Arranged lines) :
    ∃ outline, lines.foldlM (addLine total) empty = .ok outline := by
  induction lines using List.reverseRecOn with
  | nil => exact ⟨empty, rfl⟩
  | append_singleton lines line ih =>
    obtain ⟨before, admits⟩ := arranged_concat.mp arranged
    obtain ⟨prior, outlined⟩ := ih before
    obtain ⟨extended, added⟩ := exists_addLine total (describes_of_foldlM outlined).2 admits
    exact ⟨extended, List.foldlM_concat_eq_ok_iff.mpr ⟨prior, outlined, added⟩⟩

/-- The sources with an outline are those that obey the rules for labels and for the number of
instructions. -/
theorem exists_ofLines_iff {lines : List Line} :
    (∃ outline, ofLines lines = .ok outline) ↔ Arranged lines :=
  ⟨fun ⟨_, outlined⟩ => (describes_of_foldlM outlined).1, fun arranged => exists_foldlM _ arranged⟩

theorem describes_ofLines {lines : List Line} {outline : Outline}
    (outlined : ofLines lines = .ok outline) : Describes lines outline :=
  (describes_of_foldlM outlined).2

end Outline

end Asm16
