import Mathlib.Data.List.Forall2

/-! Computations that can fail, one after another and along lists. -/

namespace Covenant

theorem bind_eq_ok_iff {ε α β : Type} {first : Except ε α} {next : α → Except ε β} {value : β} :
    (first >>= next) = .ok value ↔ ∃ middle, first = .ok middle ∧ next middle = .ok value := by
  cases first with
  | error error => simp [bind, Except.bind]
  | ok middle => simp [bind, Except.bind]

theorem bind_eq_error_iff {ε α β : Type} {first : Except ε α} {next : α → Except ε β} {error : ε} :
    (first >>= next) = .error error ↔
      first = .error error ∨ ∃ middle, first = .ok middle ∧ next middle = .error error := by
  cases first with
  | error error => simp [bind, Except.bind]
  | ok middle => simp [bind, Except.bind]

theorem mapM_eq_ok_iff {ε α β : Type} {f : α → Except ε β} {items : List α} {values : List β} :
    items.mapM f = .ok values ↔
      List.Forall₂ (fun item value => f item = .ok value) items values := by
  induction items generalizing values with
  | nil => simp [pure, Except.pure, eq_comm]
  | cons item items induction =>
      rw [List.mapM_cons, bind_eq_ok_iff, List.forall₂_cons_left_iff]
      constructor
      · rintro ⟨value, head, remaining⟩
        obtain ⟨rest, tail, returned⟩ := bind_eq_ok_iff.1 remaining
        cases returned
        exact ⟨value, rest, head, induction.1 tail, rfl⟩
      · rintro ⟨value, rest, head, tail, rfl⟩
        exact ⟨value, head, bind_eq_ok_iff.2 ⟨rest, induction.2 tail, rfl⟩⟩

theorem mapM_congr {ε α β : Type} {f g : α → Except ε β} {items : List α}
    (same : ∀ item ∈ items, f item = g item) : items.mapM f = items.mapM g := by
  induction items with
  | nil => rfl
  | cons item items induction =>
      rw [List.mapM_cons, List.mapM_cons, same item (by simp),
        induction fun other member => same other (by simp [member])]

theorem exists_of_mapM_eq_error {ε α β : Type} {f : α → Except ε β} {items : List α} {error : ε}
    (fails : items.mapM f = .error error) : ∃ item ∈ items, f item = .error error := by
  induction items with
  | nil => cases fails
  | cons item items induction =>
      rw [List.mapM_cons] at fails
      rcases bind_eq_error_iff.1 fails with head | ⟨value, _, remaining⟩
      · exact ⟨item, by simp, head⟩
      · rcases bind_eq_error_iff.1 remaining with tail | ⟨_, _, returned⟩
        · obtain ⟨other, member, failed⟩ := induction tail
          exact ⟨other, by simp [member], failed⟩
        · cases returned

/-- The first item that fails decides. -/
theorem mapM_eq_error_of_first {ε α β : Type} {f : α → Except ε β} {before after : List α} {item : α}
    {error : ε} (succeed : ∀ earlier ∈ before, ∃ value, f earlier = .ok value)
    (fails : f item = .error error) : (before ++ item :: after).mapM f = .error error := by
  induction before with
  | nil =>
      rw [List.nil_append, List.mapM_cons, fails]
      rfl
  | cons earlier before induction =>
      obtain ⟨value, succeeds⟩ := succeed earlier (by simp)
      have failsLater := induction fun other member => succeed other (by simp [member])
      rw [List.cons_append, List.mapM_cons, succeeds]
      change (before ++ item :: after).mapM f >>= _ = _
      rw [failsLater]
      rfl

/-! Changing the errors of a computation. -/

section

variable {ε α β : Type} (change : ε → ε)

theorem mapError_bind (first : Except ε α) (next : α → Except ε β) :
    (first >>= next).mapError change =
      first.mapError change >>= fun value => (next value).mapError change := by
  cases first <;> rfl

theorem forM_map_eq_mapError {f : α → β} {check : β → Except ε Unit} {other : α → Except ε Unit}
    {items : List α} (same : ∀ item ∈ items, check (f item) = (other item).mapError change) :
    (items.map f).forM check = (items.forM other).mapError change := by
  rw [List.forM_eq_forM, List.forM_eq_forM]
  induction items with
  | nil => rfl
  | cons item items induction =>
      rw [List.map_cons, List.forM_cons, List.forM_cons, mapError_bind, same item (by simp),
        induction fun other member => same other (by simp [member])]

end

end Covenant
