import Covenant.Expr.Outline
import Covenant.Proofs.Outline.Lines
import Mathlib

/-! The labels of nodes: the place of a node can be told from what stands in front of it, and a
string from the form in which it is quoted. -/

namespace Covenant

/-! Numbers. -/

theorem digitChar_inj {m n : Nat} (small : m < 16) (smallToo : n < 16)
    (same : Nat.digitChar m = Nat.digitChar n) : m = n := by
  have all : ∀ m < 16, ∀ n < 16, Nat.digitChar m = Nat.digitChar n → m = n := by decide
  exact all m small n smallToo same

section

variable {base : Nat} (proper : 1 < base) (narrow : base ≤ 16)

include proper narrow

theorem toDigits_inj {m n : Nat} (same : Nat.toDigits base m = Nat.toDigits base n) : m = n := by
  induction m using Nat.strongRecOn generalizing n with
  | ind m induction =>
      have digit (n : Nat) : n % base < 16 := (Nat.mod_lt _ (by omega)).trans_le narrow
      rcases Nat.lt_or_ge m base with one | more
      · rw [Nat.toDigits_of_lt_base one] at same
        rcases Nat.lt_or_ge n base with oneToo | moreToo
        · rw [Nat.toDigits_of_lt_base oneToo] at same
          exact digitChar_inj (by omega) (by omega) (List.singleton_injective same)
        · rw [Nat.toDigits_of_base_le proper moreToo] at same
          have none := (List.append_inj' (show [] ++ [_] = _ from same) rfl).1
          exact (Nat.toDigits_ne_nil none.symm).elim
      · rw [Nat.toDigits_of_base_le proper more] at same
        rcases Nat.lt_or_ge n base with oneToo | moreToo
        · rw [Nat.toDigits_of_lt_base oneToo] at same
          have none := (List.append_inj' (show _ = [] ++ [_] from same) rfl).1
          exact (Nat.toDigits_ne_nil none).elim
        · rw [Nat.toDigits_of_base_le proper moreToo] at same
          obtain ⟨fronts, lasts⟩ := List.append_inj' same rfl
          have quotients := induction (m / base) (Nat.div_lt_self (by omega) proper) fronts
          have rests := digitChar_inj (digit m) (digit n) (List.singleton_injective lasts)
          rw [← Nat.div_add_mod m base, ← Nat.div_add_mod n base, quotients, rests]

theorem exists_digitChar_of_mem_toDigits {n : Nat} {c : Char} (member : c ∈ Nat.toDigits base n) :
    ∃ digit < 16, c = Nat.digitChar digit := by
  induction n using Nat.strongRecOn with
  | ind n induction =>
      rcases Nat.lt_or_ge n base with one | more
      · rw [Nat.toDigits_of_lt_base one, List.mem_singleton] at member
        exact ⟨n, by omega, member⟩
      · rw [Nat.toDigits_of_base_le proper more, List.mem_append, List.mem_singleton] at member
        rcases member with front | last
        · exact induction _ (Nat.div_lt_self (by omega) proper) front
        · exact ⟨n % base, (Nat.mod_lt _ (by omega)).trans_le narrow, last⟩

/-- A character that is no digit is in no number. -/
theorem not_mem_toDigits {c : Char} (other : ∀ digit < 16, Nat.digitChar digit ≠ c) (n : Nat) :
    c ∉ Nat.toDigits base n := by
  intro member
  obtain ⟨digit, small, isDigit⟩ := exists_digitChar_of_mem_toDigits proper narrow member
  exact other digit small isDigit.symm

end

/-! Places. -/

theorem Position.toList_render (pos : Position) :
    pos.render.toList = Nat.toDigits 10 pos.line ++ ':' :: Nat.toDigits 10 pos.column := by
  have text : pos.render = toString pos.line ++ ":" ++ toString pos.column := rfl
  simp [text]

theorem Position.render_inj {left right : Position} (same : left.render = right.render) :
    left = right := by
  have texts := congrArg String.toList same
  rw [toList_render, toList_render] at texts
  have free (n : Nat) : ':' ∉ Nat.toDigits 10 n :=
    not_mem_toDigits (by decide) (by decide) (by decide) n
  obtain ⟨lines, columns⟩ := append_cons_inj_of_not_mem (free _) (free _) texts
  exact congrArg₂ Position.mk (toDigits_inj (by decide) (by decide) lines)
    (toDigits_inj (by decide) (by decide) columns)

theorem Position.not_mem_render {c : Char} (notDigit : ∀ digit < 16, Nat.digitChar digit ≠ c)
    (notColon : c ≠ ':') (pos : Position) : c ∉ pos.render.toList := by
  have free (n : Nat) : c ∉ Nat.toDigits 10 n :=
    not_mem_toDigits (by decide) (by decide) notDigit n
  simp [toList_render, free, notColon]

namespace Expr

theorem toList_labelAt (pos : Position) (label : String) :
    (labelAt pos label).toList = label.toList ++ ' ' :: '(' :: (pos.render.toList ++ [')']) := by
  have text : labelAt pos label = label ++ " (" ++ pos.render ++ ")" := rfl
  simp [text]

theorem labelAt_inj {pos pos' : Position} {label label' : String}
    (same : labelAt pos label = labelAt pos' label') : pos = pos' ∧ label = label' := by
  have texts := congrArg String.toList same
  rw [toList_labelAt, toList_labelAt] at texts
  -- From the end on, the first bracket is the one before the place.
  have reversed := congrArg List.reverse texts
  simp only [List.reverse_append, List.reverse_cons, List.reverse_nil, List.nil_append,
    List.append_assoc, List.cons_append, List.cons.injEq, true_and] at reversed
  have free (pos : Position) : '(' ∉ pos.render.toList.reverse := by
    rw [List.mem_reverse]
    exact pos.not_mem_render (by decide) (by decide)
  obtain ⟨places, labels⟩ := append_cons_inj_of_not_mem (free _) (free _) reversed
  have places := String.toList_inj.1 (List.reverse_injective places)
  have labels := List.reverse_injective (List.cons.inj labels).2
  exact ⟨Position.render_inj places, String.toList_inj.1 labels⟩

end Expr

/-! Strings. -/

namespace Text

/-- The character that a letter behind a backslash stands for. -/
def meaning : Char → Char
  | '0' => '\x00'
  | 't' => '\t'
  | 'r' => '\r'
  | 'n' => '\n'
  | c => c

theorem meaning_of_shortEscape? {c letter : Char} (short : shortEscape? c = some letter) :
    meaning letter = c ∧ letter ≠ 'u' ∧ letter ≠ '\n' := by
  unfold shortEscape? at short
  split at short <;> cases short <;> decide

/-- How a character stands between double quotes. -/
inductive Escaped (c : Char) : List Char → Prop where
  | letter {letter : Char} :
      meaning letter = c → letter ≠ 'u' → letter ≠ '\n' → Escaped c ['\\', letter]
  | codePoint : Escaped c ('\\' :: 'u' :: '{' :: (Nat.toDigits 16 c.toNat ++ ['}']))
  | plain : c ≠ '\\' → c ≠ '\n' → Escaped c [c]

theorem escaped_escape (c : Char) : Escaped c (escape '"' c) := by
  rw [escape]
  cases short : shortEscape? c with
  | some letter =>
      obtain ⟨stands, notPoint, notLine⟩ := meaning_of_shortEscape? short
      exact .letter stands notPoint notLine
  | none =>
      dsimp only
      split
      · next isQuote =>
          subst isQuote
          exact .letter rfl (by decide) (by decide)
      · split
        · have shown : "\\u\x7b".toList ++ (Hex.ofNat c.toNat).toList ++ ['}'] =
              '\\' :: 'u' :: '{' :: (Nat.toDigits 16 c.toNat ++ ['}']) := by
            simp [Hex.ofNat]
          rw [shown]
          exact .codePoint
        · refine .plain ?_ ?_ <;> rintro rfl <;> cases short

namespace Escaped

variable {c d : Char} {text other : List Char}

theorem ne_nil (escaped : Escaped c text) : text ≠ [] := by
  cases escaped <;> simp

theorem oneLine (escaped : Escaped c text) : '\n' ∉ text := by
  cases escaped with
  | letter _ _ notLine => simp [notLine.symm]
  | codePoint =>
      have free (n : Nat) : '\n' ∉ Nat.toDigits 16 n :=
        not_mem_toDigits (by decide) (by decide) (by decide) n
      simp [free]
  | plain _ notLine => simpa using notLine.symm

/-- No form of a character is the front of another one. -/
theorem append_inj (escaped : Escaped c text) (escapedToo : Escaped d other)
    {rest rest' : List Char} (same : text ++ rest = other ++ rest') : c = d ∧ rest = rest' := by
  cases escaped with
  | letter stands notPoint =>
      cases escapedToo with
      | letter standsToo =>
          obtain ⟨letters, rests⟩ := List.cons.inj (List.cons.inj same).2
          rw [← stands, ← standsToo, letters]
          exact ⟨rfl, rests⟩
      | codePoint => exact (notPoint (List.cons.inj (List.cons.inj same).2).1).elim
      | plain notSlash => exact (notSlash (List.cons.inj same).1.symm).elim
  | codePoint =>
      cases escapedToo with
      | letter _ notPoint => exact (notPoint (List.cons.inj (List.cons.inj same).2).1.symm).elim
      | codePoint =>
          have free (n : Nat) : '}' ∉ Nat.toDigits 16 n :=
            not_mem_toDigits (by decide) (by decide) (by decide) n
          simp only [List.cons_append, List.append_assoc, List.nil_append, List.cons.injEq,
            true_and] at same
          obtain ⟨points, rests⟩ := append_cons_inj_of_not_mem (free _) (free _) same
          exact ⟨Char.toNat_inj.1 (toDigits_inj (by decide) (by decide) points), rests⟩
      | plain notSlash => exact (notSlash (List.cons.inj same).1.symm).elim
  | plain notSlash =>
      cases escapedToo with
      | letter | codePoint => exact (notSlash (List.cons.inj same).1).elim
      | plain => exact List.cons.inj same

end Escaped

theorem flatMap_escape_inj {text other : List Char}
    (same : text.flatMap (escape '"') = other.flatMap (escape '"')) : text = other := by
  induction text generalizing other with
  | nil =>
      cases other with
      | nil => rfl
      | cons d other =>
          rw [List.flatMap_nil, List.flatMap_cons] at same
          exact ((escaped_escape d).ne_nil (List.append_eq_nil_iff.1 same.symm).1).elim
  | cons c text induction =>
      cases other with
      | nil =>
          rw [List.flatMap_nil, List.flatMap_cons] at same
          exact ((escaped_escape c).ne_nil (List.append_eq_nil_iff.1 same).1).elim
      | cons d other =>
          rw [List.flatMap_cons, List.flatMap_cons] at same
          obtain ⟨rfl, rests⟩ := (escaped_escape c).append_inj (escaped_escape d) same
          rw [induction rests]

theorem quoted_inj {text other : String} (same : quoted text = quoted other) : text = other := by
  have texts := String.ofList_injective same
  have bodies := List.append_cancel_right (List.cons.inj texts).2
  exact String.toList_inj.1 (flatMap_escape_inj bodies)

theorem oneLine_quoted (text : String) : '\n' ∉ (quoted text).toList := by
  simp only [quoted, String.toList_ofList, List.cons_append, List.mem_cons, List.mem_append,
    List.mem_flatMap, List.not_mem_nil, or_false, not_or, not_exists, not_and]
  exact ⟨by decide, fun c _ => (escaped_escape c).oneLine, by decide⟩

end Text

end Covenant
