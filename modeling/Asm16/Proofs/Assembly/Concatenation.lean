/-
**One source after another.**

* `Line.shift` — a line as it is found that many lines and bytes later, with all its tokens;
  `Source.lines_append` says that the lines of a source are found so after those of another one.
* `Source.arranged_append` — the rules for the lines of both sources.
* `Outline.Joins` — an outline holds what a first one holds, and then what a second one holds, at
  addresses after the statements of the first.
* `Outline.ofSource_append` — two sources have an outline together exactly if each has one and these
  can be joined, and then it joins them.
-/

import Asm16.Proofs.Assembly.Outline
import Asm16.Proofs.Assembly.Position
import Mathlib.Data.List.Nodup

namespace Asm16

/-! ### Later lines -/

/-- A stretch that many bytes later. -/
def Span.shift (bytes : Nat) (span : Span) : Span :=
  ⟨span.offset + bytes, span.length⟩

/-- A token that many bytes later. -/
def Token.shift (bytes : Nat) (token : Token) : Token :=
  ⟨token.text, token.offset + bytes⟩

/-- What a line holds, that many bytes later. -/
def Line.Content.shift (bytes : Nat) : Line.Content → Line.Content
  | .blank => .blank
  | .comment => .comment
  | .label name => .label (name.shift bytes)
  | .instruction mnemonic operands =>
    .instruction (mnemonic.shift bytes) (operands.map (Token.shift bytes))

/-- A line that many lines and bytes later. -/
def Line.shift (lines bytes : Nat) (line : Line) : Line :=
  ⟨line.number + lines, line.span.shift bytes, line.content.shift bytes⟩

namespace Line

theorem label?_shift (lines bytes : Nat) (line : Line) :
    (line.shift lines bytes).label? = line.label? := by
  unfold label? shift
  cases line.content <;> rfl

theorem isInstruction_shift (lines bytes : Nat) (line : Line) :
    (line.shift lines bytes).isInstruction = line.isInstruction := by
  unfold isInstruction shift
  cases line.content <;> rfl

end Line

namespace Source

variable {first second : List Char}

theorem tokensOfRuns_shift (offset bytes : Nat) (runs : List (List Char)) :
    tokensOfRuns (offset + bytes) runs = (tokensOfRuns offset runs).map (Token.shift bytes) := by
  induction runs generalizing offset with
  | nil => rfl
  | cons run runs ih =>
    rw [tokensOfRuns, tokensOfRuns, Nat.add_right_comm, ih]
    split <;> rfl

theorem classify_shift (offset bytes : Nat) (text : List Char) :
    classify (offset + bytes) text = (classify offset text).shift bytes := by
  unfold classify tokens
  dsimp only
  rw [tokensOfRuns_shift, Nat.add_right_comm]
  split
  · split <;> rfl
  · split
    · rfl
    · cases tokensOfRuns offset _ <;> rfl

theorem linesOfPieces_shift (number offset lines bytes : Nat) (pieces : List (List Char)) :
    linesOfPieces (number + lines) (offset + bytes) pieces =
      (linesOfPieces number offset pieces).map (Line.shift lines bytes) := by
  induction pieces generalizing number offset with
  | nil => rfl
  | cons piece pieces ih =>
    rw [linesOfPieces, linesOfPieces, Nat.add_right_comm, Nat.add_right_comm offset, ih,
      classify_shift]
    rfl

theorem linesOfPieces_append (number offset : Nat) (first second : List (List Char)) :
    linesOfPieces number offset (first ++ second) = linesOfPieces number offset first ++
      linesOfPieces (number + first.length) (offset + Text.utf8Length first.flatten) second := by
  induction first generalizing number offset with
  | nil => rfl
  | cons piece first ih =>
    rw [List.cons_append, linesOfPieces, linesOfPieces, ih, List.flatten_cons,
      Text.utf8Length_append, List.length_cons, Nat.add_assoc, Nat.add_assoc offset,
      Nat.add_comm 1, List.cons_append]

theorem length_linesOfPieces (number offset : Nat) (pieces : List (List Char)) :
    (linesOfPieces number offset pieces).length = pieces.length := by
  induction pieces generalizing number offset with
  | nil => rfl
  | cons piece pieces ih => rw [linesOfPieces, List.length_cons, ih, List.length_cons]

/-- **After a source that ends its last line, the lines of another source are found as many lines
and bytes later as that source has.** -/
theorem lines_append {first second : String}
    (ends : first = "" ∨ first.toList.getLast? = some '\n') :
    lines (first ++ second) = lines first ++
      (lines second).map (Line.shift (lines first).length first.utf8ByteSize) := by
  have parted : Text.lines (first ++ second).toList =
      Text.lines first.toList ++ Text.lines second.toList := by
    rw [String.toList_append]
    refine List.splitBy_append fun c last next _ => ?_
    rcases ends with rfl | feed
    · cases last
    · obtain rfl := Option.some.inj (feed.symm.trans last)
      rfl
  have bytes : Text.utf8Length (Text.lines first.toList).flatten = first.utf8ByteSize := by
    rw [Text.lines, List.flatten_splitBy, ← Text.utf8ByteSize_ofList, String.ofList_toList]
  unfold lines
  rw [parted, linesOfPieces_append, bytes, length_linesOfPieces, ← linesOfPieces_shift]

/-! ### The rules for the lines of both -/

section Arranged

variable {lines earlier later : List Line} {name : String} {address number bytes : Nat}

theorem labelNames_shift : labelNames (lines.map (Line.shift number bytes)) = labelNames lines := by
  unfold labelNames
  rw [List.filterMap_map]
  exact congrArg (List.filterMap · lines) (funext (Line.label?_shift number bytes))

theorem countP_shift : (lines.map (Line.shift number bytes)).countP Line.isInstruction =
    lines.countP Line.isInstruction := by
  rw [List.countP_map]
  exact congrArg (List.countP · lines) (funext (Line.isInstruction_shift number bytes))

theorem declares_shift : Declares (lines.map (Line.shift number bytes)) name address ↔
    Declares lines name address := by
  induction lines using List.reverseRecOn generalizing address with
  | nil => rfl
  | append_singleton lines line ih =>
    rw [List.map_append, List.map_singleton, declares_concat, declares_concat, ih, countP_shift,
      Line.label?_shift]

/-- Lines that come later obey the rules if they do so where they are. -/
theorem arranged_shift : Arranged (lines.map (Line.shift number bytes)) ↔ Arranged lines := by
  constructor
  · rintro ⟨fits, names, distinct, inMemory⟩
    rw [countP_shift] at fits
    rw [labelNames_shift] at names distinct
    exact ⟨fits, names, distinct,
      fun name address declares => inMemory name address (declares_shift.mpr declares)⟩
  · rintro ⟨fits, names, distinct, inMemory⟩
    refine ⟨?_, ?_, ?_, fun name address declares =>
      inMemory name address (declares_shift.mp declares)⟩
    · rwa [countP_shift]
    · rwa [labelNames_shift]
    · rwa [labelNames_shift]

theorem labelNames_append :
    labelNames (earlier ++ later) = labelNames earlier ++ labelNames later :=
  List.filterMap_append

/-- A label of later lines stands for as many more instructions as the earlier ones hold. -/
theorem declares_append : Declares (earlier ++ later) name address ↔
    Declares earlier name address ∨
      ∃ rest, Declares later name rest ∧ earlier.countP Line.isInstruction + rest = address := by
  induction later using List.reverseRecOn with
  | nil =>
    rw [List.append_nil]
    refine ⟨.inl, ?_⟩
    rintro (declares | ⟨rest, ⟨before, line, after, split, -⟩, -⟩)
    · exact declares
    · cases before <;> cases split
  | append_singleton later line ih =>
    rw [← List.append_assoc, declares_concat, ih, List.countP_append, or_assoc]
    refine or_congr_right ?_
    constructor
    · rintro (⟨rest, declares, rfl⟩ | ⟨label, rfl⟩)
      · exact ⟨rest, declares_concat.mpr (.inl declares), rfl⟩
      · exact ⟨_, declares_concat.mpr (.inr ⟨label, rfl⟩), rfl⟩
    · rintro ⟨rest, declares, rfl⟩
      rcases declares_concat.mp declares with declares | ⟨label, rfl⟩
      · exact .inl ⟨rest, declares, rfl⟩
      · exact .inr ⟨label, rfl⟩

/-- **Lines after lines obey the rules if both do and no label is declared twice, there is room in
memory for the instructions of both, and also for those that the later labels stand for.** -/
theorem arranged_append : Arranged (earlier ++ later) ↔
    Arranged earlier ∧ Arranged later ∧ (labelNames earlier).Disjoint (labelNames later) ∧
      earlier.countP Line.isInstruction + later.countP Line.isInstruction ≤ 4096 ∧
      ∀ name address, Declares later name address →
        earlier.countP Line.isInstruction + address < 4096 := by
  constructor
  · rintro ⟨fits, names, distinct, inMemory⟩
    rw [List.countP_append] at fits
    rw [labelNames_append] at names distinct
    rw [List.nodup_append'] at distinct
    have room name address (declares : Declares later name address) :
        earlier.countP Line.isInstruction + address < 4096 :=
      inMemory name _ (declares_append.mpr (.inr ⟨address, declares, rfl⟩))
    refine ⟨⟨by omega, fun name member => names name (List.mem_append_left _ member), distinct.1,
        fun name address declares => inMemory name address (declares_append.mpr (.inl declares))⟩,
      ⟨by omega, fun name member => names name (List.mem_append_right _ member), distinct.2.1,
        fun name address declares => ?_⟩, distinct.2.2, fits, room⟩
    have := room name address declares
    omega
  · rintro ⟨first, second, apart, fits, room⟩
    refine ⟨?_, ?_, ?_, ?_⟩
    · rwa [List.countP_append]
    · intro name member
      rw [labelNames_append, List.mem_append] at member
      exact member.elim (first.names name) (second.names name)
    · rw [labelNames_append, List.nodup_append']
      exact ⟨first.distinct, second.distinct, apart⟩
    · intro name address declares
      rcases declares_append.mp declares with inEarlier | ⟨rest, inLater, rfl⟩
      · exact first.inMemory name address inEarlier
      · exact room name rest inLater

end Arranged

end Source

/-! ### Outlines of one source after another -/

/-- A statement that many lines, bytes and addresses after another one. -/
structure Statement.Later (lines bytes addresses : Nat) (statement later : Statement) : Prop where
  line : later.line = statement.line + lines
  address : later.address.val = statement.address.val + addresses
  mnemonic : later.mnemonic = statement.mnemonic.shift bytes
  operands : later.operands = statement.operands.map (Token.shift bytes)

namespace Outline

open Source

/-- What a second outline has to be like for it to come after a first one. -/
structure Composable (first second : Outline) : Prop where
  apart : ∀ name, first.labels.get? name = none ∨ second.labels.get? name = none
  fits : first.statements.size + second.statements.size ≤ 4096
  inMemory : ∀ name address, second.labels.get? name = some address →
    first.statements.size + address.val < 4096

/-- An outline holds the statements and the labels of a first one, and then those of a second one,
that many lines and bytes later and at addresses after the statements of the first. -/
structure Joins (lines bytes : Nat) (first second joined : Outline) : Prop where
  statements : ∃ later, joined.statements.toList = first.statements.toList ++ later ∧
    List.Forall₂ (Statement.Later lines bytes first.statements.size)
      second.statements.toList later
  labels : ∃ later, joined.labels.entries = first.labels.entries ++ later ∧
    List.Forall₂ (fun label moved => moved.1 = label.1 ∧
      moved.2.val = label.2.val + first.statements.size) second.labels.entries later

section Joins

variable {lines bytes total : Nat} {first second joined extended result : Outline} {line : Line}
  {earlier later : List Line}

theorem joins_empty (lines bytes : Nat) (first : Outline) : Joins lines bytes first empty first :=
  ⟨⟨[], (List.append_nil _).symm, .nil⟩, [], (List.append_nil _).symm, .nil⟩

theorem Joins.size (joins : Joins lines bytes first second joined) :
    joined.statements.size = second.statements.size + first.statements.size := by
  obtain ⟨later, whole, pointwise⟩ := joins.statements
  rw [← Array.length_toList, whole, List.length_append, ← pointwise.length_eq, Array.length_toList,
    Array.length_toList, Nat.add_comm]

/-- The next statement goes after those of the first outline. -/
theorem Joins.nextAddress (joins : Joins lines bytes first second joined)
    {address moved : Address} (next : second.nextAddress? = some address)
    (following : joined.nextAddress? = some moved) :
    moved.val = address.val + first.statements.size := by
  rw [← nextAddress?_eq_some_iff.mp following, ← nextAddress?_eq_some_iff.mp next, joins.size]

theorem Joins.concat_label (joins : Joins lines bytes first second joined) {name : String}
    {address moved : Address} {labels longer : LabelTable}
    (next : second.nextAddress? = some address)
    (inserted : second.labels.insert name address = .ok labels)
    (following : joined.nextAddress? = some moved)
    (follows : joined.labels.insert name moved = .ok longer) :
    Joins lines bytes first { second with labels } { joined with labels := longer } := by
  obtain ⟨later, whole, pointwise⟩ := joins.labels
  refine ⟨joins.statements, later ++ [(name, moved)], ?_, ?_⟩
  · rw [LabelTable.entries_of_insert follows, whole, List.append_assoc]
  · rw [LabelTable.entries_of_insert inserted]
    exact List.rel_append pointwise (.cons ⟨rfl, joins.nextAddress next following⟩ .nil)

theorem Joins.concat_statement (joins : Joins lines bytes first second joined)
    {statement moved : Statement}
    (follows : statement.Later lines bytes first.statements.size moved) :
    Joins lines bytes first { second with statements := second.statements.push statement }
      { joined with statements := joined.statements.push moved } := by
  obtain ⟨later, whole, pointwise⟩ := joins.statements
  refine ⟨⟨later ++ [moved], ?_, ?_⟩, joins.labels⟩
  · rw [Array.toList_push, whole, List.append_assoc]
  · rw [Array.toList_push]
    exact List.rel_append pointwise (.cons follows .nil)

/-- Outlines stay joined when a line is added to the second one, and later to both. -/
theorem Joins.concat (joins : Joins lines bytes first second joined)
    (adds : Adds second line extended) (follows : Adds joined (line.shift lines bytes) result) :
    Joins lines bytes first extended result := by
  have label := line.label?_shift lines bytes
  have instruction := line.isInstruction_shift lines bytes
  have isInstruction {line : Line} {mnemonic : Token} {operands : List Token}
      (content : line.content = .instruction mnemonic operands) : line.isInstruction = true := by
    rw [Line.isInstruction, content]
  cases adds with
  | other noLabel noInstruction =>
    cases follows with
    | other => exact joins
    | label named => cases noLabel.symm.trans (label.symm.trans named)
    | instruction content =>
      cases noInstruction.symm.trans (instruction.symm.trans (isInstruction content))
  | label named noInstruction _ next inserted =>
    cases follows with
    | other noLabel => cases noLabel.symm.trans (label.trans named)
    | label same _ _ following follows =>
      obtain rfl := Option.some.inj (same.symm.trans (label.trans named))
      exact joins.concat_label next inserted following follows
    | instruction content =>
      cases noInstruction.symm.trans (instruction.symm.trans (isInstruction content))
  | instruction content next =>
    cases follows with
    | other _ noInstruction | label _ noInstruction =>
      cases noInstruction.symm.trans (instruction.trans (isInstruction content))
    | instruction same following =>
      have moved : line.content.shift bytes = _ := same
      rw [content] at moved
      cases moved
      exact joins.concat_statement ⟨rfl, joins.nextAddress next following, rfl, rfl⟩

/-- The number of instructions that is told when a program is too large does not matter to lines
that can be added. -/
theorem addLine_eq_ok_of_total {outline : Outline}
    (added : addLine total outline line = .ok extended) (other : Nat) :
    addLine other outline line = .ok extended := by
  unfold addLine at added ⊢
  cases content : line.content with
  | blank | comment | label =>
    rw [content] at added
    exact added
  | instruction mnemonic operands =>
    simp only [content] at added ⊢
    split at added
    · cases added
    · exact added

theorem foldlM_eq_ok_of_total {outline : Outline}
    (outlined : earlier.foldlM (addLine total) outline = .ok extended) (other : Nat) :
    earlier.foldlM (addLine other) outline = .ok extended := by
  induction earlier using List.reverseRecOn generalizing extended with
  | nil => exact outlined
  | append_singleton earlier line ih =>
    obtain ⟨prior, before, added⟩ := List.foldlM_concat_eq_ok_iff.mp outlined
    exact List.foldlM_concat_eq_ok_iff.mpr
      ⟨prior, ih before, addLine_eq_ok_of_total added other⟩

/-- Lines that are outlined after a first outline, so many lines and bytes later, are joined to it
as they are outlined alone. -/
theorem joins_of_foldlM {total other : Nat}
    (alone : later.foldlM (addLine other) empty = .ok second)
    (after : (later.map (Line.shift lines bytes)).foldlM (addLine total) first = .ok joined) :
    Joins lines bytes first second joined := by
  induction later using List.reverseRecOn generalizing second joined with
  | nil =>
    cases alone
    cases after
    exact joins_empty lines bytes first
  | append_singleton later line ih =>
    obtain ⟨prior, before, added⟩ := List.foldlM_concat_eq_ok_iff.mp alone
    rw [List.map_append, List.map_singleton] at after
    obtain ⟨middle, reached, follows⟩ := List.foldlM_concat_eq_ok_iff.mp after
    exact (ih before reached).concat (adds_of_addLine added) (adds_of_addLine follows)

/-- Outlines can be joined exactly if the lines of the second may follow those of the first. -/
theorem composable_iff (left : Describes earlier first) (right : Describes later second) :
    Composable first second ↔ (labelNames earlier).Disjoint (labelNames later) ∧
      earlier.countP Line.isInstruction + later.countP Line.isInstruction ≤ 4096 ∧
      ∀ name address, Declares later name address →
        earlier.countP Line.isInstruction + address < 4096 := by
  have apart : (∀ name, first.labels.get? name = none ∨ second.labels.get? name = none) ↔
      (labelNames earlier).Disjoint (labelNames later) := by
    simp only [left.get?_eq_none_iff, right.get?_eq_none_iff, List.disjoint_left, imp_iff_not_or]
  rw [← left.size, ← right.size, ← apart]
  constructor
  · rintro ⟨apart, fits, inMemory⟩
    refine ⟨apart, fits, fun name address declares => ?_⟩
    obtain ⟨bound, get, rfl⟩ := (right.addresses name address).mp declares
    exact inMemory name bound get
  · rintro ⟨apart, fits, inMemory⟩
    exact ⟨apart, fits, fun name address get =>
      inMemory name address.val ((right.addresses name _).mpr ⟨address, get, rfl⟩)⟩

/-- Lines and later lines have an outline exactly if both have one and these can be joined. -/
theorem exists_ofLines_append_iff :
    (∃ joined, ofLines (earlier ++ later.map (Line.shift lines bytes)) = .ok joined) ↔
      ∃ first second, ofLines earlier = .ok first ∧ ofLines later = .ok second ∧
        Composable first second := by
  rw [exists_ofLines_iff, arranged_append, arranged_shift, labelNames_shift, countP_shift]
  simp only [declares_shift]
  constructor
  · rintro ⟨firstArranged, secondArranged, follows⟩
    obtain ⟨first, outlined⟩ := exists_ofLines_iff.mpr firstArranged
    obtain ⟨second, secondOutlined⟩ := exists_ofLines_iff.mpr secondArranged
    exact ⟨first, second, outlined, secondOutlined,
      (composable_iff (describes_ofLines outlined) (describes_ofLines secondOutlined)).mpr follows⟩
  · rintro ⟨first, second, outlined, secondOutlined, composable⟩
    exact ⟨exists_ofLines_iff.mp ⟨first, outlined⟩, exists_ofLines_iff.mp ⟨second, secondOutlined⟩,
      (composable_iff (describes_ofLines outlined) (describes_ofLines secondOutlined)).mp
        composable⟩

/-- The outline of lines and later lines joins those of both. -/
theorem joins_of_ofLines (outlined : ofLines earlier = .ok first)
    (secondOutlined : ofLines later = .ok second)
    (together : ofLines (earlier ++ later.map (Line.shift lines bytes)) = .ok joined) :
    Joins lines bytes first second joined := by
  unfold ofLines at outlined secondOutlined together
  rw [List.foldlM_append] at together
  obtain ⟨middle, reached, following⟩ := Except.bind_eq_ok_iff.mp together
  obtain rfl := Except.ok.inj ((foldlM_eq_ok_of_total outlined _).symm.trans reached)
  exact joins_of_foldlM secondOutlined following

end Joins

/-- **One source after another has an outline exactly if both have one and these can be joined, and
its outline joins them.** Its lines are those of the first source, and then those of the second one
that many lines and bytes later. -/
theorem ofSource_append {first second : String}
    (ends : first = "" ∨ first.toList.getLast? = some '\n') :
    Source.lines (first ++ second) = Source.lines first ++
        (Source.lines second).map (Line.shift (Source.lines first).length first.utf8ByteSize) ∧
      ((∃ joined, ofSource (first ++ second) = .ok joined) ↔ ∃ left right,
        ofSource first = .ok left ∧ ofSource second = .ok right ∧ Composable left right) ∧
      ∀ left right joined, ofSource first = .ok left → ofSource second = .ok right →
        ofSource (first ++ second) = .ok joined →
        Joins (Source.lines first).length first.utf8ByteSize left right joined := by
  have parted := @lines_append first second ends
  unfold ofSource
  rw [parted]
  exact ⟨rfl, exists_ofLines_append_iff, fun _ _ _ => joins_of_ofLines⟩

/-- A label and a jump, the first line with a carriage return, before the label of the jump and a
remark of two bytes. -/
theorem ofSource_append_of_jump :
    let first := "a:\r\nJMP b\n"
    let second := "b:\nHALT # \u00e9"
    let left : Outline := ⟨⟨[("a", 0)], by decide⟩, #[⟨2, 0, ⟨"JMP", 4⟩, [⟨"b", 8⟩]⟩]⟩
    let right : Outline := ⟨⟨[("b", 0)], by decide⟩, #[⟨2, 0, ⟨"HALT", 3⟩, []⟩]⟩
    let joined : Outline := ⟨⟨[("a", 0), ("b", 1)], by decide⟩,
      #[⟨2, 0, ⟨"JMP", 4⟩, [⟨"b", 8⟩]⟩, ⟨4, 1, ⟨"HALT", 13⟩, []⟩]⟩
    first.toList.getLast? = some '\n' ∧ ofSource first = .ok left ∧ ofSource second = .ok right ∧
      ofSource (first ++ second) = .ok joined ∧ Composable left right ∧
      Joins 2 10 left right joined := by
  intro first second left right joined
  have ends : first.toList.getLast? = some '\n' := by decide +kernel
  have outlined : ofSource first = .ok left := by decide +kernel
  have secondOutlined : ofSource second = .ok right := by decide +kernel
  have together : ofSource (first ++ second) = .ok joined := by decide +kernel
  obtain ⟨-, composes, joins⟩ := @ofSource_append first second (.inr ends)
  obtain ⟨_, _, same, sameToo, composable⟩ := composes.mp ⟨joined, together⟩
  obtain rfl := Except.ok.inj (outlined.symm.trans same)
  obtain rfl := Except.ok.inj (secondOutlined.symm.trans sameToo)
  have size : (Source.lines first).length = 2 ∧ first.utf8ByteSize = 10 := by decide +kernel
  have joinsBoth := joins left right joined outlined secondOutlined together
  rw [size.1, size.2] at joinsBoth
  exact ⟨ends, outlined, secondOutlined, together, composable, joinsBoth⟩

end Outline

end Asm16
