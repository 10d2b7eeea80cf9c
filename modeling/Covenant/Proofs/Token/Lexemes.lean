import Covenant.Proofs.Token.Writing
import Mathlib

/-! Lexing undoes writing lexemes out with spaces between them, and whatever is lexed can be written
out so again. -/

namespace Covenant.Token

/-- A text that is a token of some kind. -/
def IsLexeme (text : String) : Prop :=
  ∃ kind, Spells kind text.toList

/-- The text of a token fixes its kind. -/
theorem Spells.unique {kind other : Kind} {text : List Char} (spells : Spells kind text)
    (spellsToo : Spells other text) : kind = other := by
  cases text with
  | nil => exact (spells.ne_nil rfl).elim
  | cons c rest =>
      have same := (Lexeme.scan_of_spells spells).symm.trans (Lexeme.scan_of_spells spellsToo)
      cases same
      rfl

theorem exists_writable {lexemes : List String} (all : ∀ text ∈ lexemes, IsLexeme text) :
    ∃ shapes, Shape.Writable shapes ∧ shapes.map Shape.text = lexemes := by
  induction lexemes with
  | nil => exact ⟨[], Shape.writable_nil, rfl⟩
  | cons text lexemes induction =>
      obtain ⟨isLexeme, others⟩ := List.forall_mem_cons.1 all
      obtain ⟨kind, spells⟩ := isLexeme
      obtain ⟨shapes, writable, texts⟩ := induction others
      exact ⟨⟨kind, text⟩ :: shapes, Shape.writable_cons.2 ⟨spells, writable⟩, by simp [texts]⟩

theorem lex_lexemes {lexemes : List String} (all : ∀ text ∈ lexemes, IsLexeme text) :
    ∃ (front : List Token) (last : Token),
      lex (String.intercalate " " lexemes) = .ok (front ++ [last]) ∧ last.kind = .eof ∧
      front.map Token.text = lexemes ∧
      ∀ token ∈ front, ∀ kind, Spells kind token.text.toList ↔ kind = token.kind := by
  obtain ⟨shapes, writable, texts⟩ := exists_writable all
  obtain ⟨front, cursor, lexed, shaped⟩ := lex_write writable
  refine ⟨front, endOfInput cursor, ?_, rfl, ?_, ?_⟩
  · rwa [Shape.write, texts] at lexed
  · rw [← texts, ← shaped, List.map_map]
    rfl
  · intro token member kind
    have spells : token.shape.Spelled := by
      apply writable
      rw [← shaped]
      exact List.mem_map_of_mem member
    constructor
    · intro other
      exact other.unique spells
    · intro same
      rw [same]
      exact spells

/-- The tokens of a source, written out and lexed again, keep their kinds and texts. -/
theorem relex {source : String} {tokens : List Token} (lexed : lex source = .ok tokens) :
    ∃ (front : List Token) (last : Token), tokens = front ++ [last] ∧ last.kind = .eof ∧
      (∀ token ∈ front, Spells token.kind token.text.toList) ∧
      ∃ again : List Token, lex (String.intercalate " " (front.map Token.text)) = .ok again ∧
        again.map Token.shape = tokens.map Token.shape := by
  obtain ⟨front, last, rfl, -⟩ := lex_eq_ok lexed
  have writable := writable_of_lex lexed
  obtain ⟨again, cursor, relexed, shaped⟩ := lex_write writable
  refine ⟨front, endOfInput last, rfl, rfl, ?_, again ++ [endOfInput cursor], ?_, ?_⟩
  · intro token member
    exact writable token.shape (List.mem_map_of_mem member)
  · rw [Shape.write, List.map_map] at relexed
    exact relexed
  · rw [List.map_append, List.map_append, shaped]
    rfl

/-- Lexemes with single spaces between them are lexed to one token each, of the kind that its text
fixes; and the texts of the tokens of every source are such lexemes, which are lexed to the same
tokens but for their places. -/
theorem lexing_inverts_writing :
    (∀ lexemes : List String, (∀ text ∈ lexemes, IsLexeme text) →
      ∃ (front : List Token) (last : Token),
        lex (String.intercalate " " lexemes) = .ok (front ++ [last]) ∧ last.kind = .eof ∧
        front.map Token.text = lexemes ∧
        ∀ token ∈ front, ∀ kind, Spells kind token.text.toList ↔ kind = token.kind) ∧
    ∀ source tokens, lex source = .ok tokens →
      ∃ (front : List Token) (last : Token), tokens = front ++ [last] ∧ last.kind = .eof ∧
        (∀ token ∈ front, Spells token.kind token.text.toList) ∧
        ∃ again : List Token, lex (String.intercalate " " (front.map Token.text)) = .ok again ∧
          again.map Token.shape = tokens.map Token.shape := by
  constructor
  · intro lexemes all
    exact lex_lexemes all
  · intro source tokens lexed
    exact relex lexed

end Covenant.Token
