import Covenant.Outline
import Covenant.Proofs.Lists
import Mathlib

/-! Texts of trees tell the trees. The spaces in front of a line tell its depth, and the depths of
the lines tell which of them stand under which. -/

namespace Covenant

namespace Outline

/-- What holds of a forest whenever it holds of the trees under its first tree and of its other
trees holds of all forests. -/
@[elab_as_elim]
theorem forest_induction {Holds : List Outline → Prop} (nil : Holds [])
    (cons : ∀ label children trees, Holds children → Holds trees →
      Holds (node label children :: trees)) (trees : List Outline) : Holds trees := by
  cases trees with
  | nil => exact nil
  | cons tree trees =>
      obtain ⟨label, children⟩ := tree
      exact cons label children trees (forest_induction nil cons children)
        (forest_induction nil cons trees)
termination_by sizeOf trees

mutual

/-- The lines of a tree, each with its depth. -/
def lines (depth : Nat) : Outline → List (Nat × String)
  | node label children => (depth, label) :: linesAll (depth + 1) children
termination_by structural tree => tree

def linesAll (depth : Nat) : List Outline → List (Nat × String)
  | [] => []
  | tree :: trees => lines depth tree ++ linesAll depth trees
termination_by structural trees => trees

end

theorem linesAll_cons (depth : Nat) (label : String) (children trees : List Outline) :
    linesAll depth (node label children :: trees) =
      (depth, label) :: (linesAll (depth + 1) children ++ linesAll depth trees) := by
  rw [linesAll, lines, List.cons_append]

theorem depth_le_of_mem {depth : Nat} {trees : List Outline} {line : Nat × String}
    (member : line ∈ linesAll depth trees) : depth ≤ line.1 := by
  induction trees using forest_induction generalizing depth with
  | nil => cases member
  | cons label children trees inner others =>
      rw [linesAll_cons, List.mem_cons, List.mem_append] at member
      rcases member with rfl | below | beside
      · exact Nat.le_refl depth
      · exact Nat.le_of_succ_le (inner below)
      · exact others beside

/-- The lines under the first tree are those up to the next one that is not deeper than its own. -/
theorem takeWhile_lines (depth : Nat) (children trees : List Outline) :
    (linesAll (depth + 1) children ++ linesAll depth trees).takeWhile (depth < ·.1) =
      linesAll (depth + 1) children := by
  rw [List.takeWhile_append_of_pos]
  · cases trees with
    | nil => simp [linesAll]
    | cons tree trees =>
        obtain ⟨label, inner⟩ := tree
        rw [linesAll_cons, List.takeWhile_cons_of_neg (by simp), List.append_nil]
  · intro line member
    exact decide_eq_true (depth_le_of_mem member)

theorem linesAll_inj {depth : Nat} {trees others : List Outline}
    (same : linesAll depth trees = linesAll depth others) : trees = others := by
  induction trees using forest_induction generalizing depth others with
  | nil =>
      cases others with
      | nil => rfl
      | cons tree others =>
          obtain ⟨label, children⟩ := tree
          rw [linesAll_cons] at same
          cases same
  | cons label children trees inner rest =>
      cases others with
      | nil =>
          rw [linesAll_cons] at same
          cases same
      | cons tree others =>
          obtain ⟨label', children'⟩ := tree
          rw [linesAll_cons, linesAll_cons] at same
          obtain ⟨heads, tails⟩ := List.cons.inj same
          have below := congrArg (List.takeWhile (depth < ·.1)) tails
          rw [takeWhile_lines, takeWhile_lines] at below
          rw [below] at tails
          rw [(Prod.mk.inj heads).2, inner below, rest (List.append_cancel_left tails)]

/-! Lines as text. -/

/-- A label that takes one line and shows where it starts. -/
structure IsLabel (label : String) : Prop where
  oneLine : '\n' ∉ label.toList
  unindented : label.toList.head?.any (· ≠ ' ') = true

theorem isLabel_iff {label : String} :
    IsLabel label ↔ '\n' ∉ label.toList ∧ label.toList.head?.any (· ≠ ' ') = true :=
  ⟨fun isLabel => ⟨isLabel.oneLine, isLabel.unindented⟩, fun both => ⟨both.1, both.2⟩⟩

instance (label : String) : Decidable (IsLabel label) :=
  decidable_of_iff' _ isLabel_iff

theorem IsLabel.append {front text : String} (isLabel : IsLabel front)
    (oneLine : '\n' ∉ text.toList) : IsLabel (front ++ text) := by
  obtain ⟨inFront, unindented⟩ := isLabel
  refine ⟨by simp [inFront, oneLine], ?_⟩
  cases shown : front.toList with
  | nil => simp [shown] at unindented
  | cons c rest => simpa [shown] using unindented

/-- A forest with such labels. -/
inductive Plain : List Outline → Prop where
  | nil : Plain []
  | cons {label : String} {children trees : List Outline} :
      IsLabel label → Plain children → Plain trees → Plain (node label children :: trees)

theorem Plain.append {trees others : List Outline} (plain : Plain trees) (plainToo : Plain others) :
    Plain (trees ++ others) := by
  induction plain with
  | nil => exact plainToo
  | cons isLabel inner _ _ rest => exact .cons isLabel inner rest

theorem Plain.map {α : Type} {items : List α} {outline : α → Outline}
    (each : ∀ item ∈ items, Plain [outline item]) : Plain (items.map outline) := by
  induction items with
  | nil => exact .nil
  | cons item items induction =>
      obtain ⟨first, others⟩ := List.forall_mem_cons.1 each
      exact first.append (induction others)

theorem Plain.isLabel {depth : Nat} {trees : List Outline} (plain : Plain trees)
    {line : Nat × String} (member : line ∈ linesAll depth trees) : IsLabel line.2 := by
  induction plain generalizing depth with
  | nil => cases member
  | cons isLabel _ _ inner others =>
      rw [linesAll_cons, List.mem_cons, List.mem_append] at member
      rcases member with rfl | below | beside
      · exact isLabel
      · exact inner below
      · exact others beside

def textOf (lines : List (Nat × String)) : List Char :=
  lines.flatMap fun shown => (line shown.1 shown.2).toList

theorem toList_writeAll (out : String) (depth : Nat) (trees : List Outline) :
    (writeAll out depth trees).toList = out.toList ++ textOf (linesAll depth trees) := by
  induction trees using forest_induction generalizing out depth with
  | nil => simp [writeAll, linesAll, textOf]
  | cons label children trees inner others =>
      rw [writeAll, write, others, inner, linesAll_cons]
      simp [textOf]

theorem toList_line (depth : Nat) (label : String) :
    (line depth label).toList = List.replicate (2 * depth) ' ' ++ label.toList ++ ['\n'] := by
  simp [line]

/-- The spaces in front of a label can be told from it. -/
theorem takeWhile_spaces {label : String} (isLabel : IsLabel label) (count : Nat) :
    (List.replicate count ' ' ++ label.toList).takeWhile (· = ' ') = List.replicate count ' ' := by
  rw [List.takeWhile_append_of_pos (by simp)]
  cases shown : label.toList with
  | nil => simp
  | cons c rest =>
      have notSpace : c ≠ ' ' := by
        simpa [shown] using isLabel.unindented
      rw [List.takeWhile_cons_of_neg (by simpa using notSpace), List.append_nil]

theorem line_front_inj {depth depth' : Nat} {label label' : String} (isLabel : IsLabel label)
    (isLabel' : IsLabel label')
    (same : List.replicate (2 * depth) ' ' ++ label.toList =
      List.replicate (2 * depth') ' ' ++ label'.toList) : depth = depth' ∧ label = label' := by
  have spaces := congrArg (List.takeWhile (· = ' ')) same
  rw [takeWhile_spaces isLabel, takeWhile_spaces isLabel'] at spaces
  have depths : 2 * depth = 2 * depth' := by
    simpa using congrArg List.length spaces
  rw [depths] at same
  exact ⟨by omega, String.toList_inj.1 (List.append_cancel_left same)⟩

theorem textOf_inj {lines others : List (Nat × String)} (plain : ∀ line ∈ lines, IsLabel line.2)
    (plainToo : ∀ line ∈ others, IsLabel line.2) (same : textOf lines = textOf others) :
    lines = others := by
  induction lines generalizing others with
  | nil =>
      cases others with
      | nil => rfl
      | cons shown others => simp [textOf, toList_line] at same
  | cons shown lines induction =>
      cases others with
      | nil => simp [textOf, toList_line] at same
      | cons other others =>
          obtain ⟨isLabel, rest⟩ := List.forall_mem_cons.1 plain
          obtain ⟨isLabelToo, restToo⟩ := List.forall_mem_cons.1 plainToo
          have oneLine {label : String} (isLabel : IsLabel label) (depth : Nat) :
              '\n' ∉ List.replicate (2 * depth) ' ' ++ label.toList := by
            simp [isLabel.oneLine]
          have split {shown : Nat × String} {lines : List (Nat × String)} :
              textOf (shown :: lines) =
                List.replicate (2 * shown.1) ' ' ++ shown.2.toList ++ '\n' :: textOf lines := by
            simp [textOf, toList_line]
          rw [split, split] at same
          obtain ⟨fronts, backs⟩ := append_cons_inj_of_not_mem (oneLine isLabel _)
            (oneLine isLabelToo _) same
          obtain ⟨depths, labels⟩ := line_front_inj isLabel isLabelToo fronts
          rw [Prod.ext depths labels, induction rest restToo backs]

/-- Forests of plain labels are told apart by their texts. -/
theorem renderAll_inj {trees others : List Outline} (plain : Plain trees) (plainToo : Plain others)
    (same : renderAll trees = renderAll others) : trees = others := by
  have texts := congrArg String.toList same
  rw [renderAll, renderAll, toList_writeAll, toList_writeAll] at texts
  have lines := textOf_inj (fun _ => plain.isLabel) (fun _ => plainToo.isLabel)
    (List.append_cancel_left texts)
  exact linesAll_inj lines

theorem render_inj {tree other : Outline} (plain : Plain [tree]) (plainToo : Plain [other])
    (same : tree.render = other.render) : tree = other :=
  List.singleton_injective (renderAll_inj plain plainToo same)

end Outline

end Covenant
