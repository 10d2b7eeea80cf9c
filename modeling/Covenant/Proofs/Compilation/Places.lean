import Covenant.Proofs.Compilation.Layout
import Covenant.Proofs.Evm.CodeSize
import Covenant.Proofs.Program.Parsing
import Covenant.Proofs.Program.Places
import Covenant.Proofs.Program.Prompt
import Mathlib

/-! Every error that a compilation can end with is reported at a place of the source, and the parser
never looks behind the token that ends the input. -/

namespace Covenant

/-- Lexical errors are reported at a character, other errors at a token, which ends the input for
parse errors only. The remaining errors have no place. -/
def CompileError.PlacedIn (source : String) : CompileError → Prop
  | lex error => ∃ before c rest, source.toList = before ++ c :: rest ∧ error.pos = .behind before
  | parse error => ∃ tokens, Token.lex source = .ok tokens ∧ error.pos ∈ tokens.map Token.pos
  | semantic error => ∃ tokens, Token.lex source = .ok tokens ∧ error.pos ∈ tokens.map Token.pos ∧
      ∀ token ∈ tokens, token.pos = error.pos → token.kind ≠ .eof
  | resource _ | unboundLabel _ => True

namespace Parser

/-- A run that never looks behind its tokens. Any tokens there, in place of the one that is made up
where none is left, give the same result, and the run ends before the last token is passed. -/
structure StaysWithin {α : Type} (routine : Parser α) (tokens : List Token) : Prop where
  same : ∀ beyond, run routine (tokens ++ beyond) = run routine tokens
  stays : ∀ beyond, ∃ back, back ≠ [] ∧
    (finalState (routine ⟨tokens ++ beyond, 0⟩)).rest = back ++ beyond

theorem Decided.run_append {α : Type} {routine : Parser α} {tokens : List Token}
    (decided : Decided routine 0 tokens) (beyond : List Token) :
    run routine (tokens ++ beyond) = run routine tokens := by
  cases decided with
  | ok passed token rest value after split going succeeds =>
      rw [split, List.append_assoc, List.cons_append, run, run, succeeds, succeeds]
  | error passed token rest error split going reported fails =>
      obtain ⟨after, failed⟩ := fails rest
      obtain ⟨otherAfter, failsToo⟩ := fails (rest ++ beyond)
      rw [split, List.append_assoc, List.cons_append, run, run, failed, failsToo]

/-- The tokens up to the end of the input are never all passed. -/
theorem Forward.exists_back {α : Type} {routine : Parser α} (forward : Forward routine)
    {tokens : List Token} (ended : Ended tokens) (beyond : List Token) (depth : Nat) :
    ∃ back, back ≠ [] ∧ (finalState (routine ⟨tokens ++ beyond, depth⟩)).rest = back ++ beyond := by
  obtain ⟨passed, split, going⟩ := forward ⟨tokens ++ beyond, depth⟩
  obtain ⟨last, member, isEnd⟩ := ended
  rcases List.append_eq_append_iff.1 split with ⟨more, isPassed, -⟩ | ⟨back, isTokens, isRest⟩
  · exact (going last (by simp [isPassed, member]) isEnd).elim
  · refine ⟨back, ?_, isRest⟩
    rintro rfl
    rw [List.append_nil] at isTokens
    exact going last (isTokens ▸ member) isEnd

theorem staysWithin_program {tokens : List Token} (ended : Ended tokens) (limit : Nat) :
    StaysWithin (program limit) tokens where
  same := (decided_program ended limit).run_append
  stays beyond := (@coupled_program (.same limit)).forward.exists_back ended beyond 0

end Parser

namespace Program

variable {limits : Limits} {source : String}

theorem placed_of_parse {error : CompileError} (failed : parse limits source = .error error) :
    error.PlacedIn source := by
  rw [parse, Parser.runSource, Parser.tokens] at failed
  split at failed
  · cases failed
    trivial
  · cases lexed : Token.lex source with
    | error located =>
        rw [lexed] at failed
        cases failed
        exact Token.lex_error_at_char lexed
    | ok tokens =>
        rw [lexed] at failed
        obtain ⟨passed, token, rest, split, reported, -⟩ :=
          Parser.exists_front_of_error (Token.ended_of_lex lexed) failed
        cases reported with
        | parse message => exact ⟨tokens, lexed, by simp [split]⟩
        | resource => trivial

theorem placed_of_check {program : Program} {error : Located SemanticError}
    (parsed : parse limits source = .ok program) (rejected : program.check = .error error) :
    (CompileError.semantic error).PlacedIn source := by
  obtain ⟨-, stream, lexed, after, ran⟩ := Parser.runSource_eq_ok_iff.1 parsed
  obtain ⟨tokens, last, rfl, going⟩ := Token.lex_eq_ok lexed
  have derives := Parser.derives_of_program going rfl ran
  have found := derives.pos_of_check rejected
  refine ⟨_, lexed, by simp [found], fun token member isAt => ?_⟩
  rcases List.mem_append.1 member with inFront | isLast
  · exact going token inFront
  · -- All tokens of the program stand before the end of the input.
    obtain ⟨first, isFirst, isThere⟩ := List.mem_map.1 found
    have before := (List.pairwise_append.1 (Token.pairwise_pos_of_lex lexed)).2.2 first isFirst
      token isLast
    rw [isThere, isAt] at before
    exact (lt_irrefl _ before).elim

end Program

/-- Every error that has a place is reported at a character or a token of the source, and the parser
never uses the token that stands in for those behind the end. -/
theorem compile_errors_are_placed (limits : Limits) (source : String) :
    (∀ error, compile limits source = .error error → error.PlacedIn source) ∧
      ∀ tokens, Token.lex source = .ok tokens →
        (Parser.program limits.depth).StaysWithin tokens := by
  constructor
  · intro error failed
    rw [compile_eq_bind] at failed
    rcases bind_eq_error_iff.1 failed with unread | ⟨program, parsed, fails⟩
    · exact Program.placed_of_parse unread
    · rcases bind_eq_error_iff.1 fails with checked | ⟨_, _, generated⟩
      · cases rejected : program.check with
        | ok =>
            rw [rejected] at checked
            cases checked
        | error located =>
            rw [rejected] at checked
            cases checked
            exact Program.placed_of_check parsed rejected
      · obtain ⟨contract, _, tooLarge⟩ := exists_of_mapM_eq_error generated
        rw [Contract.error_of_generateWith tooLarge]
        trivial
  · intro tokens lexed
    exact Parser.staysWithin_program (Token.ended_of_lex lexed) limits.depth

/-- An escape that does not exist, an input that ends too early, and an assignment to a part of a
variable that does not exist. -/
theorem placed_errors :
    (compile ⟨99, 8⟩ "contract A\n\x7b \"b\\q\"" = .error (.lex ⟨⟨2, 6⟩, .invalidEscape 'q'⟩) ∧
        (CompileError.lex ⟨⟨2, 6⟩, .invalidEscape 'q'⟩).PlacedIn "contract A\n\x7b \"b\\q\"") ∧
      (compile ⟨99, 8⟩ "contract A \x7b\n" =
          .error (.parse ⟨⟨2, 1⟩, .unexpected .eof (.symbol .rbrace)⟩) ∧
        (CompileError.parse ⟨⟨2, 1⟩, .unexpected .eof (.symbol .rbrace)⟩).PlacedIn
          "contract A \x7b\n") ∧
      compile ⟨99, 8⟩ "contract A \x7b def f() \x7b\nx[0].y = 1 \x7d \x7d" =
          .error (.semantic ⟨⟨2, 1⟩, .undefinedVar "x"⟩) ∧
        (CompileError.semantic ⟨⟨2, 1⟩, .undefinedVar "x"⟩).PlacedIn
          "contract A \x7b def f() \x7b\nx[0].y = 1 \x7d \x7d" := by
  have escape : compile ⟨99, 8⟩ "contract A\n\x7b \"b\\q\"" =
      .error (.lex ⟨⟨2, 6⟩, .invalidEscape 'q'⟩) := by cbv
  have early : compile ⟨99, 8⟩ "contract A \x7b\n" =
      .error (.parse ⟨⟨2, 1⟩, .unexpected .eof (.symbol .rbrace)⟩) := by cbv
  have undefined : compile ⟨99, 8⟩ "contract A \x7b def f() \x7b\nx[0].y = 1 \x7d \x7d" =
      .error (.semantic ⟨⟨2, 1⟩, .undefinedVar "x"⟩) := by cbv
  refine ⟨⟨escape, ?_⟩, ⟨early, ?_⟩, undefined, ?_⟩
  · exact (compile_errors_are_placed _ _).1 _ escape
  · exact (compile_errors_are_placed _ _).1 _ early
  · exact (compile_errors_are_placed _ _).1 _ undefined

end Covenant
