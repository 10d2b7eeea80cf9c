import Covenant.Expr.Json
import Covenant.Expr.Outline
import Covenant.Proofs.Lists
import Covenant.Proofs.Syntax.Parts

/-! The height of expressions, of text trees and of JSON values. What is written of an expression is
at least as high as the expression itself, so whoever walks through it has to go as deep. -/

namespace Covenant

namespace Outline

def children : Outline → List Outline
  | node _ children => children

/-- One for a tree without children, and else one more than its highest child. -/
def height : Outline → Nat
  | node _ children => (children.attach.map fun child => height child.1).foldr max 0 + 1
decreasing_by
  have smaller := List.sizeOf_lt_of_mem child.2
  simp
  omega

theorem height_eq (tree : Outline) :
    tree.height = (tree.children.map height).foldr max 0 + 1 := by
  cases tree with
  | node label children => rw [height, List.attach_map_val, Outline.children]

theorem height_pos (tree : Outline) : 0 < tree.height := by
  rw [height_eq]
  omega

theorem height_child_lt {tree child : Outline} (member : child ∈ tree.children) :
    child.height < tree.height := by
  rw [height_eq tree]
  exact Nat.lt_succ_of_le (List.le_max_of_le' 0 (List.mem_map_of_mem member) (Nat.le_refl _))

end Outline

namespace Json

def children : Json → List Json
  | null | bool _ | number _ | string _ => []
  | array items => items
  | object fields => fields.map Prod.snd

theorem sizeOf_child_lt {json child : Json} (member : child ∈ json.children) :
    sizeOf child < sizeOf json := by
  cases json with
  | null | bool _ | number _ | string _ => cases member
  | array items =>
      have smaller := List.sizeOf_lt_of_mem (show child ∈ items from member)
      simp
      omega
  | object fields =>
      obtain ⟨⟨key, value⟩, inside, rfl⟩ := List.mem_map.1 member
      have smaller := List.sizeOf_lt_of_mem inside
      simp at smaller ⊢
      omega

/-- One for a value that holds no others, and else one more than the highest of those. -/
def height (json : Json) : Nat :=
  (json.children.attach.map fun child => height child.1).foldr max 0 + 1
termination_by sizeOf json
decreasing_by exact sizeOf_child_lt child.2

theorem height_eq (json : Json) : json.height = (json.children.map height).foldr max 0 + 1 := by
  rw [height, List.attach_map_val]

theorem height_pos (json : Json) : 0 < json.height := by
  rw [height_eq]
  omega

theorem height_child_lt {json child : Json} (member : child ∈ json.children) :
    child.height < json.height := by
  rw [height_eq json]
  exact Nat.lt_succ_of_le (List.le_max_of_le' 0 (List.mem_map_of_mem member) (Nat.le_refl _))

theorem height_field_lt {fields : List (String × Json)} {key : String} {value : Json}
    (member : (key, value) ∈ fields) : value.height < (object fields).height :=
  height_child_lt (List.mem_map_of_mem member)

theorem height_item_lt {items : List Json} {item : Json} (member : item ∈ items) :
    item.height < (array items).height :=
  height_child_lt member

end Json

namespace Expr

/-- One for an expression without parts, and else one more than its highest part. -/
def height (expr : Expr) : Nat :=
  (expr.parts.attach.map fun part => height part.1).foldr max 0 + 1
termination_by sizeOf expr
decreasing_by exact sizeOf_part_lt part.2

theorem height_eq (expr : Expr) : expr.height = (expr.parts.map height).foldr max 0 + 1 := by
  rw [height, List.attach_map_val]

theorem height_pos (expr : Expr) : 0 < expr.height := by
  rw [height_eq]
  omega

theorem height_le_iff {expr : Expr} {bound : Nat} :
    expr.height ≤ bound + 1 ↔ ∀ part ∈ expr.parts, part.height ≤ bound := by
  rw [height_eq, Nat.add_le_add_iff_right, foldr_max_le_iff, List.forall_mem_map]

theorem height_le_of_parts {expr : Expr} {bound : Nat} (positive : 0 < bound)
    (lower : ∀ part ∈ expr.parts, part.height < bound) : expr.height ≤ bound := by
  obtain ⟨bound, rfl⟩ := Nat.exists_eq_succ_of_ne_zero (Nat.ne_of_gt positive)
  apply height_le_iff.2
  intro part member
  exact Nat.le_of_lt_succ (lower part member)

theorem height_part_lt {expr part : Expr} (member : part ∈ expr.parts) :
    part.height < expr.height := by
  rw [height_eq expr]
  exact Nat.lt_succ_of_le (List.le_max_of_le' 0 (List.mem_map_of_mem member) (Nat.le_refl _))

theorem Contains.height_le {expr inner : Expr} (contains : expr.Contains inner) :
    inner.height ≤ expr.height := by
  induction contains with
  | self => exact Nat.le_refl _
  | inside member _ induction => exact Nat.le_trans induction (Nat.le_of_lt (height_part_lt member))

theorem height_outline_part_lt {expr part : Expr} (member : part ∈ expr.parts) :
    part.outline.height < expr.outline.height := by
  cases expr with
  | literal | ident => cases member
  | object pos properties =>
      obtain ⟨⟨key, value⟩, inside, rfl⟩ := List.mem_map.1 member
      -- Each value hangs under a node for its key.
      let property := Outline.node s!"property {key}" [value.outline]
      have listed : property ∈ (object pos properties).outline.children := by
        rw [outline, propertiesOnto_eq]
        exact List.mem_append_right _ (List.mem_map_of_mem inside)
      have below : value.outline ∈ property.children := .head _
      exact Nat.lt_trans (Outline.height_child_lt below) (Outline.height_child_lt listed)
  | unary | binary | ternary | member | index | call | tuple | array =>
      have hangs := List.mem_map_of_mem (f := outline) member
      apply Outline.height_child_lt
      simpa [outline, Outline.children, parts] using hangs

theorem height_le_height_outline (expr : Expr) : expr.height ≤ expr.outline.height := by
  induction expr using parts_induction with
  | step expr induction =>
      apply height_le_of_parts expr.outline.height_pos
      intro part member
      exact Nat.lt_of_le_of_lt (induction part member) (height_outline_part_lt member)

theorem height_field_lt_jsonNode {form key : String} {pos : Position}
    {fields : List (String × Json)} {value : Json} (member : (key, value) ∈ fields) :
    value.height < (jsonNode form pos fields).height :=
  Json.height_field_lt (List.mem_append_left _ (.tail _ member))

theorem height_item_lt_jsonNode {form key : String} {pos : Position}
    {fields : List (String × Json)} {items : List Json} {item : Json}
    (member : (key, .array items) ∈ fields) (inside : item ∈ items) :
    item.height < (jsonNode form pos fields).height :=
  Nat.lt_trans (Json.height_item_lt inside) (height_field_lt_jsonNode member)

theorem height_toJson_part_lt {expr part : Expr} (member : part ∈ expr.parts) :
    part.toJson.height < expr.toJson.height := by
  cases expr with
  | literal | ident => cases member
  | unary pos op operand =>
      obtain rfl := List.mem_singleton.1 member
      exact height_field_lt_jsonNode (.tail _ (.head _))
  | binary pos op left right =>
      simp only [parts, List.mem_cons, List.not_mem_nil, or_false] at member
      rcases member with rfl | rfl
      · exact height_field_lt_jsonNode (.head _)
      · exact height_field_lt_jsonNode (.tail _ (.tail _ (.head _)))
  | ternary pos condition yes no =>
      simp only [parts, List.mem_cons, List.not_mem_nil, or_false] at member
      rcases member with rfl | rfl | rfl
      · exact height_field_lt_jsonNode (.head _)
      · exact height_field_lt_jsonNode (.tail _ (.head _))
      · exact height_field_lt_jsonNode (.tail _ (.tail _ (.head _)))
  | member pos base name =>
      obtain rfl := List.mem_singleton.1 member
      exact height_field_lt_jsonNode (.head _)
  | index pos base key =>
      simp only [parts, List.mem_cons, List.not_mem_nil, or_false] at member
      rcases member with rfl | rfl
      · exact height_field_lt_jsonNode (.head _)
      · exact height_field_lt_jsonNode (.tail _ (.head _))
  | call pos callee arguments =>
      rw [toJson, jsonOnto_eq]
      rcases List.mem_cons.1 member with rfl | inside
      · exact height_field_lt_jsonNode (.head _)
      · exact height_item_lt_jsonNode (.tail _ (.head _)) (List.mem_map_of_mem inside)
  | tuple pos elements | array pos elements =>
      rw [toJson, jsonOnto_eq]
      exact height_item_lt_jsonNode (.head _) (List.mem_map_of_mem member)
  | object pos properties =>
      obtain ⟨⟨key, value⟩, inside, rfl⟩ := List.mem_map.1 member
      rw [toJson, propertyJsonOnto_eq]
      have field : (("value" : String), value.toJson) ∈
          [("key", .string key), ("value", value.toJson)] := .tail _ (.head _)
      apply Nat.lt_trans (Json.height_field_lt field)
      exact height_item_lt_jsonNode (.head _) (List.mem_map_of_mem inside)

theorem height_le_height_toJson (expr : Expr) : expr.height ≤ expr.toJson.height := by
  induction expr using parts_induction with
  | step expr induction =>
      apply height_le_of_parts expr.toJson.height_pos
      intro part member
      exact Nat.lt_of_le_of_lt (induction part member) (height_toJson_part_lt member)

end Expr

end Covenant
