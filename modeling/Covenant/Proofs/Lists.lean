import Mathlib.Data.List.Forall2
import Mathlib.Data.List.MinMax
import Mathlib.Order.Nat

/-! Facts on lists that the proofs about trees, tokens and code share. -/

namespace Covenant

variable {α β γ : Type}

theorem map_eq_self {f : α → α} {items : List α} (same : ∀ item ∈ items, f item = item) :
    items.map f = items :=
  (List.map_congr_left same).trans (List.map_id' items)

theorem map_map_of_kept {view : α → β} {change : α → α} {items : List α}
    (kept : ∀ item ∈ items, view (change item) = view item) :
    (items.map change).map view = items.map view := by
  rw [List.map_map]
  exact List.map_congr_left kept

theorem length_le_flatMap (part : α → List β) {item : α} {items : List α} (member : item ∈ items) :
    (part item).length ≤ (items.flatMap part).length :=
  (List.sublist_flatten_of_mem (List.mem_map_of_mem member)).length_le

theorem foldr_max_le_iff {heights : List Nat} {bound : Nat} :
    heights.foldr max 0 ≤ bound ↔ ∀ height ∈ heights, height ≤ bound := by
  constructor
  · intro least height member
    exact Nat.le_trans (List.le_max_of_le' 0 member (Nat.le_refl _)) least
  · exact List.max_le_of_forall_le heights bound

/-! Lists whose members are related one by one. -/

theorem exists_of_forall₂ {related : α → β → Prop} {items : List α} {images : List β}
    (all : List.Forall₂ related items images) {item : α} (member : item ∈ items) :
    ∃ image ∈ images, related item image := by
  induction all with
  | nil => cases member
  | @cons first image _ _ here _ induction =>
      rcases List.mem_cons.1 member with rfl | later
      · exact ⟨image, List.mem_cons_self .., here⟩
      · obtain ⟨image, isImage, there⟩ := induction later
        exact ⟨image, List.mem_cons_of_mem _ isImage, there⟩

theorem map_eq_map_of_forall₂ {related : α → β → Prop} {f : α → γ} {g : β → γ} {items : List α}
    {images : List β} (same : ∀ item ∈ items, ∀ image, related item image → f item = g image)
    (all : List.Forall₂ related items images) : items.map f = images.map g := by
  induction all with
  | nil => rfl
  | cons here _ induction =>
      obtain ⟨first, rest⟩ := List.forall_mem_cons.1 same
      rw [List.map_cons, List.map_cons, first _ here, induction rest]

theorem forall₂_of_map_eq {view : α → β} {related : α → α → Prop} {items others : List α}
    (relates : ∀ item ∈ items, ∀ other ∈ others, view item = view other → related item other)
    (same : items.map view = others.map view) : List.Forall₂ related items others := by
  induction items generalizing others with
  | nil =>
      rw [List.map_nil, eq_comm, List.map_eq_nil_iff] at same
      rw [same]
      exact .nil
  | cons item items induction =>
      obtain ⟨other, others, rfl, first, rest⟩ := List.map_eq_cons_iff.1 same.symm
      refine .cons (relates item (by simp) other (by simp) first.symm)
        (induction (fun item member other memberToo => ?_) rest.symm)
      exact relates item (List.mem_cons_of_mem _ member) other (List.mem_cons_of_mem _ memberToo)

theorem map_eq_of_map_eq {view : α → β} {kept : α → γ} {items others : List α}
    (keeps : ∀ item ∈ items, ∀ other ∈ others, view item = view other → kept item = kept other)
    (same : items.map view = others.map view) : items.map kept = others.map kept :=
  map_eq_map_of_forall₂ (fun _ _ _ same => same) (forall₂_of_map_eq keeps same)

/-- Lists are the same if a view that tells their members apart shows them the same. -/
theorem eq_of_map_eq {view : α → β} {items others : List α}
    (inj : ∀ item ∈ items, ∀ other, view item = view other → item = other)
    (same : items.map view = others.map view) : items = others := by
  rw [← List.forall₂_eq_eq_eq]
  exact forall₂_of_map_eq (fun item member other _ same => inj item member other same) same

theorem option_eq_of_map_toList_eq {view : α → β} {item other : Option α}
    (inj : ∀ value ∈ item, ∀ other, view value = view other → value = other)
    (same : item.toList.map view = other.toList.map view) : item = other := by
  have lists := eq_of_map_eq (fun value member => inj value (Option.mem_toList.1 member)) same
  cases item <;> cases other <;> simp_all

/-! Lists that fall into two parts. -/

theorem append_inj_of_sorts (sort : α → Bool) {first others first' others' : List α}
    (ofFirst : ∀ item ∈ first, sort item = true) (ofFirst' : ∀ item ∈ first', sort item = true)
    (ofOthers : ∀ item ∈ others, sort item = false)
    (ofOthers' : ∀ item ∈ others', sort item = false)
    (same : first ++ others = first' ++ others') : first = first' ∧ others = others' := by
  have sorted := congrArg (List.filter sort) same
  rw [List.filter_append, List.filter_append, List.filter_eq_self.2 ofFirst,
    List.filter_eq_self.2 ofFirst', List.filter_eq_nil_iff.2 (by simpa using ofOthers),
    List.filter_eq_nil_iff.2 (by simpa using ofOthers'), List.append_nil, List.append_nil] at sorted
  rw [sorted] at same
  exact ⟨sorted, List.append_cancel_left same⟩

section

variable {stays : α → Bool} {text : List α}

theorem takeWhile_append_of_stop (stops : text.dropWhile stays ≠ []) (more : List α) :
    (text ++ more).takeWhile stays = text.takeWhile stays := by
  have split := List.takeWhile_append_dropWhile (p := stays) (l := text)
  have longer := List.length_pos_of_ne_nil stops
  have lengths := congrArg List.length split
  rw [List.length_append] at lengths
  rw [List.takeWhile_append, if_neg (by omega)]

theorem dropWhile_append_of_stop (stops : text.dropWhile stays ≠ []) (more : List α) :
    (text ++ more).dropWhile stays = text.dropWhile stays ++ more := by
  rw [List.dropWhile_append, if_neg (by simpa using stops)]

theorem takeWhile_prefix_append (stays : α → Bool) (text more : List α) :
    text.takeWhile stays <+: (text ++ more).takeWhile stays := by
  rw [List.takeWhile_append]
  split
  · exact (List.takeWhile_prefix stays).trans (List.prefix_append text _)
  · exact List.prefix_rfl

theorem takeWhile_append_cons {stop : α} (stops : stays stop = false) (text more : List α) :
    (text ++ stop :: more).takeWhile stays = text.takeWhile stays := by
  induction text with
  | nil => simp [stops]
  | cons c text induction => simp only [List.cons_append, List.takeWhile_cons, induction]

theorem dropWhile_append_cons {stop : α} (stops : stays stop = false) (text more : List α) :
    (text ++ stop :: more).dropWhile stays = text.dropWhile stays ++ stop :: more := by
  induction text with
  | nil => simp [stops]
  | cons c text induction =>
      simp only [List.cons_append, List.dropWhile_cons, induction]
      split <;> rfl

end

/-- Two lists with a mark in them have the same fronts if the mark is in neither of these. -/
theorem append_cons_inj_of_not_mem [DecidableEq α] {mark : α} {front front' back back' : List α}
    (free : mark ∉ front) (free' : mark ∉ front')
    (same : front ++ mark :: back = front' ++ mark :: back') : front = front' ∧ back = back' := by
  have before {front back : List α} (free : mark ∉ front) :
      (front ++ mark :: back).takeWhile (· ≠ mark) = front := by
    rw [List.takeWhile_append_of_pos, List.takeWhile_cons_of_neg (by simp), List.append_nil]
    intro other member
    have different : other ≠ mark := by
      rintro rfl
      exact free member
    simpa using different
  have fronts := congrArg (List.takeWhile (· ≠ mark)) same
  rw [before free, before free'] at fronts
  subst fronts
  exact ⟨rfl, (List.cons.inj (List.append_cancel_left same)).2⟩

end Covenant
