/-
**Replacing tokens in place.**

* `Text.splitAtByte` — a text cut at a byte.
* `Source.replaceTokens` — a text with tokens replaced where they stand, everything else untouched.
* `Source.Replaces` — the same said of the parts of both texts; `Source.Replaces.replaceTokens_eq`
  says that it is the same.
* `Source.words_induction` — a text is separators, or a word between separators and another text.
* `Source.exists_replaces_words` — with tokens replaced, a text has the words that replace them.
-/

import Asm16.Proofs.Assembly.Position

namespace Asm16

namespace Text

/-- A text cut after the characters that its first `bytes` bytes hold. -/
def splitAtByte : Nat → List Char → List Char × List Char
  | _, [] => ([], [])
  | bytes, c :: rest =>
    if c.utf8Size ≤ bytes then
      let parts := splitAtByte (bytes - c.utf8Size) rest
      (c :: parts.1, parts.2)
    else ([], c :: rest)

/-- A text is cut between two of its parts. -/
theorem splitAtByte_append (before after : List Char) :
    splitAtByte (utf8Length before) (before ++ after) = (before, after) := by
  induction before with
  | nil =>
    cases after with
    | nil => rfl
    | cons c after =>
      have positive := c.utf8Size_pos
      exact if_neg (Nat.not_le_of_lt positive)
  | cons c before ih =>
    rw [List.cons_append, utf8Length_cons, splitAtByte, if_pos (Nat.le_add_right _ _),
      Nat.add_sub_cancel_left, ih]

end Text

namespace Source

/-- A text that starts at byte `offset` with tokens replaced where they stand, in order. -/
def replaceTokens (replace : String → String) : Nat → List Token → List Char → List Char
  | _, [], text => text
  | offset, token :: tokens, text =>
    let (before, following) := Text.splitAtByte (token.offset - offset) text
    let (_, after) := Text.splitAtByte token.text.utf8ByteSize following
    before ++ ((replace token.text).toList ++
      replaceTokens replace (token.offset + token.text.utf8ByteSize) tokens after)

/-- A text that starts at byte `offset` becomes another one with tokens replaced where they stand:
what is before, between and after them is the same in both. -/
inductive Replaces (replace : String → String) :
    Nat → List Token → List Char → List Char → Prop
  | done (offset : Nat) (text : List Char) : Replaces replace offset [] text text
  | token {offset : Nat} {lead word rest result : List Char} {tokens : List Token}
      (later : Replaces replace (offset + Text.utf8Length lead + Text.utf8Length word) tokens
        rest result) :
      Replaces replace offset (⟨String.ofList word, offset + Text.utf8Length lead⟩ :: tokens)
        (lead ++ (word ++ rest)) (lead ++ ((replace (String.ofList word)).toList ++ result))

namespace Replaces

variable {replace : String → String} {offset : Nat} {tokens others : List Token}
  {text result following outcome : List Char}

theorem replaceTokens_eq (replaces : Replaces replace offset tokens text result) :
    replaceTokens replace offset tokens text = result := by
  induction replaces with
  | done => rfl
  | @token offset lead word rest result tokens _ ih =>
    rw [replaceTokens, Nat.add_sub_cancel_left, Text.splitAtByte_append]
    dsimp only
    rw [Text.utf8ByteSize_ofList, Text.splitAtByte_append]
    dsimp only
    rw [ih]

/-- What stands before a text stays. -/
theorem lead {before : List Char}
    (replaces : Replaces replace (offset + Text.utf8Length before) tokens text result) :
    Replaces replace offset tokens (before ++ text) (before ++ result) := by
  cases replaces with
  | done => exact .done _ _
  | @token _ lead word rest result tokens later =>
    have whole : Replaces replace offset
        (⟨String.ofList word, offset + Text.utf8Length (before ++ lead)⟩ :: tokens)
        ((before ++ lead) ++ (word ++ rest))
        ((before ++ lead) ++ ((replace (String.ofList word)).toList ++ result)) :=
      .token (by rwa [Text.utf8Length_append, ← Nat.add_assoc])
    rwa [Text.utf8Length_append, ← Nat.add_assoc, List.append_assoc, List.append_assoc] at whole

/-- Tokens are replaced in one text after another. -/
theorem append (replaces : Replaces replace offset tokens text result)
    (next : Replaces replace (offset + Text.utf8Length text) others following outcome) :
    Replaces replace offset (tokens ++ others) (text ++ following) (result ++ outcome) := by
  induction replaces with
  | done => exact next.lead
  | @token offset lead word rest result tokens _ ih =>
    rw [Text.utf8Length_append, Text.utf8Length_append, ← Nat.add_assoc, ← Nat.add_assoc] at next
    simpa only [List.append_assoc, List.cons_append] using Replaces.token (ih next)

/-- What stands after a text stays. -/
theorem append_same (replaces : Replaces replace offset tokens text result)
    (after : List Char) : Replaces replace offset tokens (text ++ after) (result ++ after) := by
  have whole := replaces.append (.done (offset + Text.utf8Length text) after)
  rwa [List.append_nil] at whole

/-- Only the characters of new words are new. -/
theorem mem_cases (replaces : Replaces replace offset tokens text result) {c : Char}
    (member : c ∈ result) : c ∈ text ∨ ∃ token ∈ tokens, c ∈ (replace token.text).toList := by
  induction replaces with
  | done => exact .inl member
  | @token offset lead word rest result tokens _ ih =>
    rcases List.mem_append.mp member with inLead | member
    · exact .inl (List.mem_append_left _ inLead)
    · rcases List.mem_append.mp member with inWord | member
      · exact .inr ⟨_, List.mem_cons_self, inWord⟩
      · rcases ih member with inRest | ⟨token, inTokens, inWord⟩
        · exact .inl (by simp [inRest])
        · exact .inr ⟨token, List.mem_cons_of_mem _ inTokens, inWord⟩

/-- Something stays something if no token is replaced by nothing. -/
theorem ne_nil (replaces : Replaces replace offset tokens text result)
    (words : ∀ token ∈ tokens, replace token.text ≠ "") (nonempty : text ≠ []) : result ≠ [] := by
  cases replaces with
  | done => exact nonempty
  | token =>
    intro none
    have empty := (List.append_eq_nil_iff.mp (List.append_eq_nil_iff.mp none).2).1
    exact words _ List.mem_cons_self (String.toList_eq_nil_iff.mp empty)

end Replaces

/-! ### Words and tokens -/

/-- A word between separators and what does not go on with it. -/
structure Leads (gap word rest : List Char) : Prop where
  separators : ∀ c ∈ gap, isSeparator c = true
  nonempty : word ≠ []
  solid : ∀ c ∈ word, isSeparator c = false
  ends : ∀ c ∈ rest.head?, isSeparator c = true

theorem separators_or_leads (text : List Char) : (∀ c ∈ text, isSeparator c = true) ∨
    ∃ gap word rest, text = gap ++ (word ++ rest) ∧ Leads gap word rest := by
  by_cases blank : text.dropWhile isSeparator = []
  · rw [List.dropWhile_eq_nil_iff] at blank
    exact .inl blank
  · refine .inr ⟨text.takeWhile isSeparator,
      (text.dropWhile isSeparator).takeWhile (!isSeparator ·),
      (text.dropWhile isSeparator).dropWhile (!isSeparator ·), ?_, ?_, ?_, ?_, ?_⟩
    · rw [List.takeWhile_append_dropWhile, List.takeWhile_append_dropWhile]
    · exact fun _ => List.mem_takeWhile_imp
    · intro none
      have head := List.head?_dropWhile_not isSeparator text
      obtain ⟨c, rest, split⟩ := List.exists_cons_of_ne_nil blank
      rw [split] at head none
      rw [List.takeWhile_cons_of_pos (by simpa using head)] at none
      cases none
    · intro c member
      simpa using List.mem_takeWhile_imp member
    · intro c head
      have stops := List.head?_dropWhile_not (!isSeparator ·) (text.dropWhile isSeparator)
      rw [Option.mem_def.mp head] at stops
      simpa using stops

/-- A text is separators, or separators and a word before another text. -/
theorem words_induction {motive : List Char → Prop}
    (gap : ∀ gap, (∀ c ∈ gap, isSeparator c = true) → motive gap)
    (word : ∀ gap word rest, Leads gap word rest → motive rest → motive (gap ++ (word ++ rest)))
    (text : List Char) : motive text := by
  induction length : text.length using Nat.strong_induction_on generalizing text with
  | _ length ih =>
    rcases separators_or_leads text with separators | ⟨margin, first, rest, rfl, leads⟩
    · exact gap text separators
    · refine word margin first rest leads (ih rest.length ?_ rest rfl)
      have := List.length_pos_of_ne_nil leads.nonempty
      rw [← length, List.length_append, List.length_append]
      omega

variable {gap word rest text : List Char}

theorem tokensOfRuns_append (offset : Nat) (first second : List (List Char)) :
    tokensOfRuns offset (first ++ second) = tokensOfRuns offset first ++
      tokensOfRuns (offset + Text.utf8Length first.flatten) second := by
  induction first generalizing offset with
  | nil => rfl
  | cons run first ih =>
    rw [List.cons_append, tokensOfRuns, tokensOfRuns, ih, List.flatten_cons, Text.utf8Length_append,
      Nat.add_assoc]
    split <;> rfl

/-- Texts that meet at a word's end have the tokens of both. -/
theorem tokens_append {left right : List Char} (apart : ∀ c ∈ left.getLast?,
    ∀ next ∈ right.head?, isSeparator c ≠ isSeparator next) (offset : Nat) :
    tokens offset (left ++ right) =
      tokens offset left ++ tokens (offset + Text.utf8Length left) right := by
  unfold tokens
  rw [List.splitBy_append fun c last next head => beq_false_of_ne (apart c last next head),
    tokensOfRuns_append, List.flatten_splitBy]

theorem tokens_of_separators (separators : ∀ c ∈ gap, isSeparator c = true) (offset : Nat) :
    tokens offset gap = [] := by
  have texts := map_text_tokens offset gap
  rwa [words_of_separators separators, List.map_nil, List.map_eq_nil_iff] at texts

theorem tokens_of_word (nonempty : word ≠ []) (solid : ∀ c ∈ word, isSeparator c = false)
    (offset : Nat) : tokens offset word = [⟨String.ofList word, offset⟩] := by
  unfold tokens
  rw [List.splitBy_of_isChain nonempty (isChain_word solid), tokensOfRuns,
    if_neg (not_all_isSeparator nonempty solid)]
  rfl

namespace Leads

variable (leads : Leads gap word rest)

include leads

theorem apart : ∀ c ∈ word.getLast?, ∀ next ∈ rest.head?, isSeparator c ≠ isSeparator next := by
  intro c last next head
  rw [leads.solid c (List.mem_of_getLast? last), leads.ends next head]
  exact Bool.false_ne_true

theorem words_eq : words (gap ++ (word ++ rest)) = word :: words rest := by
  rw [words_separators_append leads.separators, words_append leads.apart,
    words_of_word leads.nonempty leads.solid]
  rfl

theorem tokens_eq (offset : Nat) : tokens offset (gap ++ (word ++ rest)) =
    ⟨String.ofList word, offset + Text.utf8Length gap⟩ ::
      tokens (offset + Text.utf8Length gap + Text.utf8Length word) rest := by
  rw [tokens_append, tokens_of_separators leads.separators, tokens_append leads.apart,
    tokens_of_word leads.nonempty leads.solid]
  · rfl
  · intro c last next head
    obtain ⟨first, others, rfl⟩ := List.exists_cons_of_ne_nil leads.nonempty
    obtain rfl := Option.some.inj head
    rw [leads.separators c (List.mem_of_getLast? last), leads.solid first List.mem_cons_self]
    exact Bool.false_ne_true.symm

/-- Only separators can stand before a word at the start of a text that starts with one. -/
theorem head?_eq (starts : ∀ c ∈ (gap ++ (word ++ rest)).head?, isSeparator c = true)
    (other : List Char) : (gap ++ other).head? = gap.head? := by
  refine List.head?_append_of_ne_nil _ fun none => ?_
  obtain ⟨first, others, rfl⟩ := List.exists_cons_of_ne_nil leads.nonempty
  rw [none] at starts
  have separator := starts first rfl
  rw [leads.solid first List.mem_cons_self] at separator
  cases separator

end Leads

/-! ### Replaced words -/

/-- A name, replaced if it is one of the given ones. -/
def replaceName (replace : String → String) (names : List String) (name : String) : String :=
  if name ∈ names then replace name else name

/-- **With some of its tokens replaced, a text has the words that replace them.** -/
theorem exists_replaces_words {replace : String → String} {names : List String}
    (solid : ∀ name ∈ names, replace name ≠ "" ∧
      ∀ c ∈ (replace name).toList, isSeparator c = false) (text : List Char) (offset : Nat) :
    ∃ result, Replaces replace offset ((tokens offset text).filter (·.text ∈ names)) text result ∧
      (words result).map String.ofList =
        ((words text).map String.ofList).map (replaceName replace names) ∧
      ((∀ c ∈ text.head?, isSeparator c = true) → ∀ c ∈ result.head?, isSeparator c = true) := by
  induction text using words_induction generalizing offset with
  | gap gap separators =>
    rw [tokens_of_separators separators]
    refine ⟨gap, .done _ _, ?_, id⟩
    rw [words_of_separators separators]
    rfl
  | word gap word rest leads ih =>
    obtain ⟨result, replaces, found, starts⟩ :=
      ih (offset + Text.utf8Length gap + Text.utf8Length word)
    have renamed : Leads gap (replaceName replace names (String.ofList word)).toList result := by
      unfold replaceName
      split
      · next listed =>
        exact ⟨leads.separators, fun none => (solid _ listed).1 (String.toList_eq_nil_iff.mp none),
          (solid _ listed).2, starts leads.ends⟩
      · rw [String.toList_ofList]
        exact ⟨leads.separators, leads.nonempty, leads.solid, starts leads.ends⟩
    refine ⟨gap ++ ((replaceName replace names (String.ofList word)).toList ++ result), ?_, ?_, ?_⟩
    · rw [leads.tokens_eq]
      unfold replaceName
      split
      · next listed =>
        rw [List.filter_cons_of_pos (by simpa using listed)]
        exact .token replaces
      · next unlisted =>
        rw [List.filter_cons_of_neg (by simpa using unlisted), String.toList_ofList]
        exact replaces.lead.lead
    · rw [renamed.words_eq, leads.words_eq, List.map_cons, List.map_cons, List.map_cons, found,
        String.ofList_toList]
    -- A text that starts with a separator goes on doing so, and thus ends the word before it.
    · intro separator c head
      rw [leads.head?_eq separator] at head
      exact leads.separators c (List.mem_of_head? head)

end Source

end Asm16
