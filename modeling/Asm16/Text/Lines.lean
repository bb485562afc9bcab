/-
**Lines of a text and their size in bytes.**

* `lines` — a text cut after every line feed; the pieces joined give the text back.
* `utf8Length` — the number of bytes a text takes in UTF-8, the unit of every source offset.
-/

namespace Asm16.Text

/-- The text cut after every line feed, so that each piece but the last ends in one. -/
def lines (text : List Char) : List (List Char) :=
  text.splitBy fun c _ => c != '\n'

/-- The number of bytes of a text in UTF-8. -/
def utf8Length (text : List Char) : Nat :=
  text.foldr (fun c length => c.utf8Size + length) 0

@[simp] theorem utf8Length_nil : utf8Length [] = 0 := rfl

@[simp] theorem utf8Length_cons (c : Char) (text : List Char) :
    utf8Length (c :: text) = c.utf8Size + utf8Length text := rfl

@[simp] theorem utf8Length_append (left right : List Char) :
    utf8Length (left ++ right) = utf8Length left + utf8Length right := by
  induction left with
  | nil => rw [List.nil_append, utf8Length_nil, Nat.zero_add]
  | cons c left ih => rw [List.cons_append, utf8Length_cons, utf8Length_cons, ih, Nat.add_assoc]

end Asm16.Text
