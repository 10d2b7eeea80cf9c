import Covenant.Source.Position
import Mathlib

/-! Places in the order in which a text is read: every character leads to a later place. -/

namespace Covenant

namespace Position

/-- The line counts first, then the column. -/
def key (pos : Position) : ℕ ×ₗ ℕ :=
  toLex (pos.line, pos.column)

theorem key_injective : Function.Injective key := by
  rintro ⟨line, column⟩ ⟨otherLine, otherColumn⟩ same
  obtain ⟨rfl, rfl⟩ := Prod.mk.inj (toLex.injective same)
  rfl

instance : PartialOrder Position :=
  PartialOrder.lift key key_injective

theorem lt_iff {first second : Position} :
    first < second ↔
      first.line < second.line ∨ first.line = second.line ∧ first.column < second.column :=
  Prod.Lex.lt_iff

theorem lt_next (pos : Position) (c : Char) : pos < pos.next c := by
  rw [lt_iff, next]
  split
  · exact .inl (Nat.lt_succ_self _)
  · exact .inr ⟨rfl, Nat.lt_succ_self _⟩

end Position

namespace Cursor

theorem pos_le_after (cursor : Cursor) (text : List Char) :
    cursor.pos ≤ (cursor.after text).pos := by
  induction text generalizing cursor with
  | nil => exact le_rfl
  | cons c text induction =>
      rw [after_cons]
      exact (cursor.pos.lt_next c).le.trans (induction (cursor.next c))

theorem pos_lt_after (cursor : Cursor) {text : List Char} (nonempty : text ≠ []) :
    cursor.pos < (cursor.after text).pos := by
  obtain ⟨c, rest, rfl⟩ := List.exists_cons_of_ne_nil nonempty
  rw [after_cons]
  exact (cursor.pos.lt_next c).trans_le (pos_le_after (cursor.next c) rest)

end Cursor

end Covenant
