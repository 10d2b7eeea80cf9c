import Covenant.Proofs.Syntax.Height
import Mathlib

/-! JSON values as a reader takes them, to whom the order of fields means nothing. -/

namespace Covenant.Json

/-- Values that differ in nothing but the order of fields. -/
inductive Same : Json → Json → Prop where
  | null : Same null null
  | bool (value : Bool) : Same (bool value) (bool value)
  | number (value : Nat) : Same (number value) (number value)
  | string (value : String) : Same (string value) (string value)
  | array {items others : List Json} :
      List.Forall₂ Same items others → Same (array items) (array others)
  | object {fields others : List (String × Json)} :
      (∀ key, Option.Rel Same (fields.lookup key) (others.lookup key)) →
        Same (object fields) (object others)

theorem mem_children_of_lookup {fields : List (String × Json)} {key : String} {value : Json}
    (found : fields.lookup key = some value) : value ∈ (object fields).children := by
  obtain ⟨before, after, split, _⟩ := List.lookup_eq_some_iff.1 found
  simp [children, split]

namespace Same

theorem refl (json : Json) : Same json json := by
  have inside (child : Json) (member : child ∈ json.children) : Same child child :=
    have := sizeOf_child_lt member
    refl child
  cases json with
  | null => exact .null
  | bool value => exact .bool value
  | number value => exact .number value
  | string value => exact .string value
  | array items => exact .array (List.forall₂_same.2 inside)
  | object fields =>
      refine .object fun key => ?_
      cases found : fields.lookup key with
      | none => exact .none
      | some value => exact .some (inside value (mem_children_of_lookup found))
termination_by sizeOf json

theorem eq_null {json : Json} (same : Same .null json) : json = .null := by
  cases same
  rfl

theorem null_eq {json : Json} (same : Same json .null) : json = .null := by
  cases same
  rfl

theorem bool_inj {left right : Bool} (same : Same (.bool left) (.bool right)) : left = right := by
  cases same
  rfl

theorem number_inj {left right : Nat} (same : Same (.number left) (.number right)) :
    left = right := by
  cases same
  rfl

theorem string_inj {left right : String} (same : Same (.string left) (.string right)) :
    left = right := by
  cases same
  rfl

theorem items {items others : List Json} (same : Same (.array items) (.array others)) :
    List.Forall₂ Same items others := by
  cases same with
  | array all => exact all

theorem field {fields others : List (String × Json)} (same : Same (.object fields) (.object others))
    (key : String) {value other : Json} (found : fields.lookup key = some value)
    (foundToo : others.lookup key = some other) : Same value other := by
  cases same with
  | object related =>
      have here := related key
      rw [found, foundToo] at here
      cases here with
      | some same => exact same

/-! Lists and options are told apart as far as their members are. -/

section

variable {α β : Type} {toJson : α → Json} {view : α → β}

theorem map_eq {items others : List α}
    (same : Same (.array (items.map toJson)) (.array (others.map toJson)))
    (determined : ∀ item ∈ items, ∀ other ∈ others,
      Same (toJson item) (toJson other) → view item = view other) :
    items.map view = others.map view := by
  have all := same.items
  rw [List.forall₂_map_left_iff, List.forall₂_map_right_iff] at all
  clear same
  induction all with
  | nil => rfl
  | cons first _ induction =>
      rw [List.map_cons, List.map_cons, determined _ (.head _) _ (.head _) first]
      rw [induction fun item member other memberToo =>
        determined item (.tail _ member) other (.tail _ memberToo)]

theorem option_map_eq {value other : Option α} (present : ∀ item, toJson item ≠ .null)
    (same : Same (ofOption toJson value) (ofOption toJson other))
    (determined : ∀ item ∈ value, ∀ item' ∈ other,
      Same (toJson item) (toJson item') → view item = view item') :
    value.map view = other.map view := by
  cases value with
  | none =>
      cases other with
      | none => rfl
      | some item' => exact absurd same.eq_null (present item')
  | some item =>
      cases other with
      | none => exact absurd same.null_eq (present item)
      | some item' => exact congrArg some (determined item rfl item' rfl same)

end

end Same

end Covenant.Json
