import Covenant.Proofs.Source.Order
import Covenant.Proofs.Token.Continuation
import Covenant.Proofs.Token.Tiling
import Mathlib

/-! Where tokens and lexical errors are: every token at a later place than the one before it, and every
error at a character of the source. -/

namespace Covenant

/-- The place of the character that follows `before`. -/
def Position.behind (before : List Char) : Position :=
  ⟨1 + before.count '\n', 1 + (before.reverse.takeWhile (· ≠ '\n')).length⟩

namespace Token

theorem Tiles.pos_le {before text : List Char} {tokens : List Token}
    (tiles : Tiles before text tokens) :
    ∀ token ∈ tokens, (Cursor.start.after before).pos ≤ token.pos := by
  induction tiles with
  | @last before gap trivia =>
      intro token member
      rw [List.mem_singleton.1 member, behind, Cursor.after_append]
      exact Cursor.pos_le_after _ gap
  | @cons before gap text rest kind tokens trivia going nonempty tiles induction =>
      intro token member
      rcases List.mem_cons.1 member with rfl | later
      · rw [behind, Cursor.after_append]
        exact Cursor.pos_le_after _ gap
      · have further := induction token later
        rw [Cursor.after_append] at further
        exact (Cursor.pos_le_after _ _).trans further

theorem Tiles.pairwise_pos {before text : List Char} {tokens : List Token}
    (tiles : Tiles before text tokens) : tokens.Pairwise fun token later => token.pos < later.pos := by
  induction tiles with
  | last => exact List.pairwise_singleton _ _
  | @cons before gap text rest kind tokens trivia going nonempty tiles induction =>
      refine List.pairwise_cons.2 ⟨fun later member => ?_, induction⟩
      have further := tiles.pos_le later member
      rw [← List.append_assoc, Cursor.after_append] at further
      exact (Cursor.pos_lt_after _ nonempty).trans_le further

theorem pairwise_pos_of_lex {source : String} {tokens : List Token}
    (lexed : lex source = .ok tokens) : tokens.Pairwise fun token later => token.pos < later.pos :=
  (tiles_of_lexFrom lexed : Tiles [] source.toList tokens).pairwise_pos

/-- No two tokens stand at one place. -/
theorem nodup_pos_of_lex {source : String} {tokens : List Token} (lexed : lex source = .ok tokens) :
    (tokens.map Token.pos).Nodup := by
  rw [List.nodup_iff_pairwise_ne, List.pairwise_map]
  exact (pairwise_pos_of_lex lexed).imp fun earlier => earlier.ne

/-- A lexical error is reported at a character of the source. -/
theorem lex_error_at_char {source : String} {error : Located LexError}
    (failed : lex source = .error error) :
    ∃ before c rest, source.toList = before ++ c :: rest ∧ error.pos = .behind before := by
  obtain ⟨before, c, rest, fault, stops, rfl⟩ := stops_of_lexFrom failed
  obtain ⟨d, others, inside⟩ := (Lexeme.faultWithin_scan stops.failed).inside
  refine ⟨before ++ fault.before, d, others, ?_, Cursor.pos_after _⟩
  rw [stops.parts, inside, List.append_assoc]

end Token

end Covenant
