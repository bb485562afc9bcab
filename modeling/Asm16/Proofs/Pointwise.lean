/-
**Lists, member by member.**

* `Except.bind_eq_ok_iff`, `Except.bind_eq_error_iff` — two computations in sequence succeed when
  both do, and fail when one of them does.
* `List.mapM_eq_ok_iff`, `List.foldlM_concat_eq_ok_iff` — the same for the computations on the
  members of a list; `List.mapM_eq_error`, `List.exists_of_mapM_eq_error` and
  `List.foldlM_eq_error` say how these fail.
* `List.exists_first` — the first member without a property.
* `List.forall₂_congr`, `List.forall₂_trans`, `List.exists_forall₂` — lists whose members are
  related place by place.
* `Except.Related` — two computations that both succeed with related results or both fail with
  related failures; `Except.Related.foldlM`, `Except.Related.mapM` say so of computations on related
  lists.
-/

import Mathlib.Data.List.Forall2

namespace Asm16

/-! ### Computations that may fail -/

section Computations

variable {ε α β : Type}

theorem Except.bind_eq_ok_iff {first : Except ε α} {second : α → Except ε β} {result : β} :
    first >>= second = .ok result ↔ ∃ value, first = .ok value ∧ second value = .ok result := by
  cases first with
  | error failure =>
    refine ⟨fun failed => (by cases failed), ?_⟩
    rintro ⟨value, succeeded, -⟩
    cases succeeded
  | ok value =>
    refine ⟨fun succeeded => ⟨value, rfl, succeeded⟩, ?_⟩
    rintro ⟨_, same, succeeded⟩
    cases same
    exact succeeded

/-- Two computations in sequence fail when the first one does, or else the second one. -/
theorem Except.bind_eq_error_iff {first : Except ε α} {second : α → Except ε β} {failure : ε} :
    first >>= second = .error failure ↔
      first = .error failure ∨ ∃ value, first = .ok value ∧ second value = .error failure := by
  cases first with
  | error other =>
    refine ⟨fun failed => .inl (by cases failed; rfl), ?_⟩
    rintro (failed | ⟨value, succeeded, -⟩)
    · cases failed
      rfl
    · cases succeeded
  | ok value =>
    refine ⟨fun failed => .inr ⟨value, rfl, failed⟩, ?_⟩
    rintro (failed | ⟨_, same, failed⟩)
    · cases failed
    · cases same
      exact failed

/-- Failures that are restated come from failures. -/
theorem Except.exists_of_mapError_eq_error {δ : Type} {restate : ε → δ} {outcome : Except ε α}
    {failure : δ} (failed : outcome.mapError restate = .error failure) :
    ∃ cause, outcome = .error cause ∧ failure = restate cause := by
  cases outcome with
  | error cause => exact ⟨cause, rfl, (Except.error.inj failed).symm⟩
  | ok value => cases failed

theorem List.mapM_eq_ok_iff {compute : α → Except ε β} {members : List α} {results : List β} :
    members.mapM compute = .ok results ↔
      List.Forall₂ (fun member result => compute member = .ok result) members results := by
  induction members generalizing results with
  | nil =>
    rw [List.mapM_nil, List.forall₂_nil_left_iff]
    exact ⟨fun same => (Except.ok.inj same).symm, fun same => by rw [same]; rfl⟩
  | cons first rest ih =>
    rw [List.mapM_cons, Except.bind_eq_ok_iff, List.forall₂_cons_left_iff]
    constructor
    · rintro ⟨value, computed, remaining⟩
      obtain ⟨values, others, same⟩ := Except.bind_eq_ok_iff.mp remaining
      cases same
      exact ⟨value, values, computed, ih.mp others, rfl⟩
    · rintro ⟨value, values, computed, others, rfl⟩
      exact ⟨value, computed, Except.bind_eq_ok_iff.mpr ⟨values, ih.mpr others, rfl⟩⟩

/-- Going through one more member succeeds when going through the ones before it does and so does
the last step. -/
theorem List.foldlM_concat_eq_ok_iff {step : β → α → Except ε β} {members : List α} {last : α}
    {start final : β} :
    (members ++ [last]).foldlM step start = .ok final ↔
      ∃ prior, members.foldlM step start = .ok prior ∧ step prior last = .ok final := by
  simp only [List.foldlM_append, List.foldlM_cons, List.foldlM_nil, bind_pure]
  exact Except.bind_eq_ok_iff

/-- Going through members fails at the first one with which a step fails. -/
theorem List.foldlM_eq_error {step : β → α → Except ε β} {before after : List α} {first : α}
    {start prior : β} {failure : ε} (reached : before.foldlM step start = .ok prior)
    (failed : step prior first = .error failure) :
    (before ++ first :: after).foldlM step start = .error failure := by
  rw [List.foldlM_append, reached]
  show (first :: after).foldlM step prior = _
  rw [List.foldlM_cons, failed]
  rfl

/-- Computing on all members fails as it does on the first one on which it fails. -/
theorem List.mapM_eq_error {compute : α → Except ε β} {before after : List α} {first : α}
    {failure : ε} (computed : ∀ member ∈ before, ∃ result, compute member = .ok result)
    (failed : compute first = .error failure) :
    (before ++ first :: after).mapM compute = .error failure := by
  induction before with
  | nil =>
    rw [List.nil_append, List.mapM_cons, failed]
    rfl
  | cons member before ih =>
    obtain ⟨result, succeeded⟩ := computed member (by simp)
    rw [List.cons_append, List.mapM_cons, succeeded,
      ih fun other inRest => computed other (by simp [inRest])]
    rfl

/-- Computing on all members fails only for the first one on which it fails. -/
theorem List.exists_of_mapM_eq_error {compute : α → Except ε β} {members : List α} {failure : ε}
    (failed : members.mapM compute = .error failure) :
    ∃ before first after, members = before ++ first :: after ∧
      (∀ member ∈ before, ∃ result, compute member = .ok result) ∧
      compute first = .error failure := by
  induction members with
  | nil => cases failed
  | cons member rest ih =>
    rw [List.mapM_cons, Except.bind_eq_error_iff] at failed
    rcases failed with first | ⟨result, computed, later⟩
    · exact ⟨[], member, rest, rfl, by simp, first⟩
    · rcases Except.bind_eq_error_iff.mp later with failed | ⟨_, _, never⟩
      · obtain ⟨before, first, after, rfl, earlier, failed⟩ := ih failed
        refine ⟨member :: before, first, after, rfl, ?_, failed⟩
        simpa using ⟨⟨result, computed⟩, earlier⟩
      · cases never

end Computations

/-- In a list that has a member without a property there is a first one without it. -/
theorem List.exists_first {α : Type} {P : α → Prop} {members : List α}
    (lacking : ∃ member ∈ members, ¬ P member) : ∃ before first after,
      members = before ++ first :: after ∧ (∀ member ∈ before, P member) ∧ ¬ P first := by
  induction members with
  | nil => simp at lacking
  | cons member rest ih =>
    by_cases holds : P member
    · obtain ⟨other, inMembers, fails⟩ := lacking
      have inRest : other ∈ rest := by
        rcases List.mem_cons.mp inMembers with rfl | inRest
        · exact absurd holds fails
        · exact inRest
      obtain ⟨before, first, after, rfl, all, fails⟩ := ih ⟨other, inRest, fails⟩
      exact ⟨member :: before, first, after, rfl, by simpa [holds] using all, fails⟩
    · exact ⟨[], member, rest, rfl, by simp, holds⟩

/-! ### Related lists -/

section Related

variable {α β γ : Type} {related : α → β → Prop} {left : List α} {right : List β}

theorem List.forall₂_congr {other : α → β → Prop}
    (same : ∀ first, ∀ second ∈ right, related first second ↔ other first second) :
    List.Forall₂ related left right ↔ List.Forall₂ other left right := by
  induction right generalizing left with
  | nil => rw [List.forall₂_nil_right_iff, List.forall₂_nil_right_iff]
  | cons second rest ih =>
    rw [List.forall₂_cons_right_iff, List.forall₂_cons_right_iff]
    refine exists_congr fun first => exists_congr fun others => ?_
    rw [same first second (by simp)]
    refine and_congr_right fun _ => and_congr_left fun _ => ?_
    exact ih fun first member inRest => same first member (by simp [inRest])

theorem List.forall₂_trans {following : β → γ → Prop} {last : List γ}
    (first : List.Forall₂ related left right) (second : List.Forall₂ following right last) :
    List.Forall₂ (fun member result => ∃ between, related member between ∧ following between result)
      left last := by
  induction first generalizing last with
  | nil =>
    cases second
    exact .nil
  | cons head _ ih =>
    cases second with
    | cons head' tail' => exact .cons ⟨_, head, head'⟩ (ih tail')

theorem List.exists_forall₂ (each : ∀ first ∈ left, ∃ second, related first second) :
    ∃ right, List.Forall₂ related left right := by
  induction left with
  | nil => exact ⟨[], .nil⟩
  | cons first rest ih =>
    obtain ⟨second, head⟩ := each first (by simp)
    obtain ⟨others, tail⟩ := ih fun member inRest => each member (by simp [inRest])
    exact ⟨second :: others, .cons head tail⟩

theorem List.exists_of_forall₂_left (pointwise : List.Forall₂ related left right) {first : α}
    (member : first ∈ left) : ∃ second ∈ right, related first second := by
  induction pointwise with
  | nil => cases member
  | cons head _ ih =>
    rcases List.mem_cons.mp member with rfl | member
    · exact ⟨_, by simp, head⟩
    · obtain ⟨second, inRest, holds⟩ := ih member
      exact ⟨second, by simp [inRest], holds⟩

theorem List.exists_of_forall₂_right (pointwise : List.Forall₂ related left right) {second : β}
    (member : second ∈ right) : ∃ first ∈ left, related first second :=
  List.exists_of_forall₂_left pointwise.flip member

/-- What is related to a list in two parts is in two such parts itself. -/
theorem List.exists_append_of_forall₂ {before after : List α} {first : α}
    (pointwise : List.Forall₂ related (before ++ first :: after) right) :
    ∃ earlier second later, right = earlier ++ second :: later ∧
      List.Forall₂ related before earlier ∧ related first second := by
  induction before generalizing right with
  | nil =>
    cases pointwise with
    | cons head _ => exact ⟨[], _, _, rfl, .nil, head⟩
  | cons member before ih =>
    cases pointwise with
    | cons head tail =>
      obtain ⟨earlier, second, later, rfl, all, holds⟩ := ih tail
      exact ⟨_ :: earlier, second, later, rfl, .cons head all, holds⟩

/-- Members of related lists that are at the same place are related, and are at the same place. -/
theorem List.forall₂_mem_zip (pointwise : List.Forall₂ related left right) :
    List.Forall₂ (fun first second => (first, second) ∈ left.zip right ∧ related first second)
      left right := by
  rw [List.forall₂_iff_zip] at pointwise ⊢
  exact ⟨pointwise.1, fun member => ⟨member, pointwise.2 member⟩⟩

end Related

/-! ### Related computations -/

/-- Two computations that may fail go alike: both succeed with related results, or both fail with
related failures. -/
inductive Except.Related {ε δ α β : Type} (failures : ε → δ → Prop) (results : α → β → Prop) :
    Except ε α → Except δ β → Prop
  | ok {result : α} {other : β} (related : results result other) :
      Related failures results (.ok result) (.ok other)
  | error {failure : ε} {other : δ} (related : failures failure other) :
      Related failures results (.error failure) (.error other)

namespace Except.Related

variable {ε δ α β γ ζ : Type} {failures : ε → δ → Prop} {results : α → β → Prop}
  {others : γ → ζ → Prop}

theorem refl {failures : ε → ε → Prop} {results : α → α → Prop}
    (failed : ∀ failure, failures failure failure) (succeeded : ∀ result, results result result)
    (outcome : Except ε α) : Related failures results outcome outcome := by
  cases outcome with
  | ok result => exact .ok (succeeded result)
  | error failure => exact .error (failed failure)

theorem imp {weaker : α → β → Prop} {first : Except ε α} {second : Except δ β}
    (related : Related failures results first second)
    (implies : ∀ result other, results result other → weaker result other) :
    Related failures weaker first second := by
  cases related with
  | ok related => exact .ok (implies _ _ related)
  | error related => exact .error related

theorem bind {first : Except ε α} {second : Except δ β} {next : α → Except ε γ}
    {following : β → Except δ ζ} (related : Related failures results first second)
    (step : ∀ result other, results result other →
      Related failures others (next result) (following other)) :
    Related failures others (first >>= next) (second >>= following) := by
  cases related with
  | ok related => exact step _ _ related
  | error related => exact .error related

theorem map {first : Except ε α} {second : Except δ β} {restate : α → γ} {translate : β → ζ}
    (related : Related failures results first second)
    (step : ∀ result other, results result other → others (restate result) (translate other)) :
    Related failures others (first.map restate) (second.map translate) := by
  cases related with
  | ok related => exact .ok (step _ _ related)
  | error related => exact .error related

variable {paired : γ → ζ → Prop} {members : List γ} {counterparts : List ζ}

/-- Going through related lists with steps that go alike goes alike. -/
theorem foldlM {step : α → γ → Except ε α} {stride : β → ζ → Except δ β} {start : α} {outset : β}
    (pointwise : List.Forall₂ paired members counterparts) (begins : results start outset)
    (alike : ∀ first second, results first second → ∀ member counterpart,
      paired member counterpart →
      Related failures results (step first member) (stride second counterpart)) :
    Related failures results (members.foldlM step start) (counterparts.foldlM stride outset) := by
  induction pointwise generalizing start outset with
  | nil => exact .ok begins
  | cons head _ ih =>
    rw [List.foldlM_cons, List.foldlM_cons]
    exact (alike _ _ begins _ _ head).bind fun _ _ => ih

/-- Computing on the members of related lists goes alike if it does for each pair. -/
theorem mapM {compute : γ → Except ε α} {evaluate : ζ → Except δ β}
    (pointwise : List.Forall₂ paired members counterparts)
    (alike : ∀ member counterpart, paired member counterpart →
      Related failures results (compute member) (evaluate counterpart)) :
    Related failures (List.Forall₂ results) (members.mapM compute)
      (counterparts.mapM evaluate) := by
  induction pointwise with
  | nil => exact .ok .nil
  | cons head _ ih =>
    rw [List.mapM_cons, List.mapM_cons]
    exact (alike _ _ head).bind fun _ _ first => ih.bind fun _ _ rest => .ok (.cons first rest)

end Except.Related

end Asm16
