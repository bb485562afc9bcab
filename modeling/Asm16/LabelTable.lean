/-
**Labels and their addresses.**

* `LabelTable` — the declared labels in the order of their declaration, each name once.
* `LabelTable.get?` — the address a name is bound to.
* `LabelTable.insert` — binds a new name and refuses a bound one with the address it has.
-/

import Asm16.Word

namespace Asm16

/-- The declared labels with their addresses, in the order of their declaration. -/
structure LabelTable where
  entries : List (String × Address)
  nodup : (entries.map Prod.fst).Nodup
deriving DecidableEq

namespace LabelTable

/-- The table without labels. -/
def empty : LabelTable where
  entries := []
  nodup := .nil

/-- The address a name is bound to. -/
def get? (table : LabelTable) (name : String) : Option Address :=
  table.entries.lookup name

/-- The number of declared labels. -/
def size (table : LabelTable) : Nat :=
  table.entries.length

/-- A name that is bound to no address is none of the declared names. -/
theorem not_mem_of_get?_eq_none {table : LabelTable} {name : String}
    (unbound : table.get? name = none) : name ∉ table.entries.map Prod.fst := by
  intro declared
  obtain ⟨entry, member, rfl⟩ := List.mem_map.mp declared
  have differs := List.lookup_eq_none_iff.mp unbound entry member
  simp at differs

/-- Binds a name to an address after the labels declared so far. A bound name is refused, with
the address it is bound to. -/
def insert (table : LabelTable) (name : String) (address : Address) :
    Except Address LabelTable :=
  match unbound : table.get? name with
  | some first => .error first
  | none => .ok {
      entries := table.entries ++ [(name, address)]
      nodup := by
        rw [List.map_append, List.nodup_append]
        refine ⟨table.nodup, by simp, ?_⟩
        intro declared member other new same
        obtain rfl : other = name := by simpa using new
        exact not_mem_of_get?_eq_none unbound (same ▸ member) }

/-! ### Bound names -/

@[simp] theorem get?_empty (name : String) : empty.get? name = none := rfl

/-- A name is bound to the address in its entry. -/
theorem get?_eq_some_iff {table : LabelTable} {name : String} {address : Address} :
    table.get? name = some address ↔ (name, address) ∈ table.entries := by
  constructor
  · intro bound
    obtain ⟨before, after, split, -⟩ := List.lookup_eq_some_iff.mp bound
    rw [split]
    exact List.mem_append_right before (List.mem_cons_self ..)
  · intro member
    obtain ⟨before, after, split⟩ := List.append_of_mem member
    refine List.lookup_eq_some_iff.mpr ⟨before, after, split, fun entry earlier => ?_⟩
    -- Each name has one entry, so that none before this one is found first.
    have distinct := table.nodup
    rw [split, List.map_append, List.nodup_append] at distinct
    exact bne_iff_ne.mpr (Ne.symm (distinct.2.2 _ (List.mem_map_of_mem earlier) name (by simp)))

/-- A name without an entry is bound to no address. -/
theorem get?_eq_none_iff {table : LabelTable} {name : String} :
    table.get? name = none ↔ ∀ address, (name, address) ∉ table.entries := by
  rw [Option.eq_none_iff_forall_ne_some]
  exact forall_congr' fun address => not_congr get?_eq_some_iff

/-- Binding a name changes what that name is bound to and nothing else. -/
theorem get?_of_insert {table extended : LabelTable} {name : String} {address : Address}
    (inserted : table.insert name address = .ok extended) (other : String) :
    extended.get? other = if other = name then some address else table.get? other := by
  unfold insert at inserted
  split at inserted
  · cases inserted
  · next unbound =>
    cases inserted
    unfold get? at unbound ⊢
    rw [List.lookup_append]
    by_cases same : other = name
    · subst same
      simp [unbound]
    · rw [if_neg same, List.lookup_cons, beq_false_of_ne same, List.lookup_nil, Option.or_none]

/-- Exactly the bound names are refused, with the address they are bound to. -/
theorem insert_eq_error_iff {table : LabelTable} {name : String} {address first : Address} :
    table.insert name address = .error first ↔ table.get? name = some first := by
  unfold insert
  split
  · next bound => simp [bound]
  · next unbound => simp [unbound]

end LabelTable

end Asm16
