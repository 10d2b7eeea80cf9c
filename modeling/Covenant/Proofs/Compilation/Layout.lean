import Covenant.Proofs.Program.Coupling
import Covenant.Proofs.Rules.Relocation
import Covenant.Proofs.Token.Lexing
import Mathlib

/-! Only the tokens of a source matter: blank text, comments, line breaks and the two ways to write
a brace change nothing but the places that errors speak of. -/

namespace Covenant

/-- The kinds whose tokens are told apart by their texts. -/
def Token.Kind.hasOwnText : Kind → Bool
  | identifier | number | string _ => true
  | keyword _ | symbol _ | eof => false

structure Token.SameWord (token other : Token) : Prop where
  kind : other.kind = token.kind
  text : token.kind.hasOwnText = true → other.text = token.text

/-- An error with the start of the source in place of its own place. -/
def CompileError.unplaced (error : CompileError) : CompileError :=
  error.relocate fun _ => .start

namespace Token

def unplaced (token : Token) : Token :=
  { token with pos := .start }

theorem alike_unplaced {token other : Token} (kind : other.kind = token.kind)
    (text : token.kind.lexeme? = none → other.text = token.text) :
    Alike (fun _ => .start) token other.unplaced :=
  ⟨kind, text, rfl⟩

theorem text_of_eof {source : String} {tokens : List Token} (lexed : lex source = .ok tokens)
    {token : Token} (member : token ∈ tokens) (ended : token.kind = .eof) : token.text = "" := by
  obtain ⟨front, last, rfl, going⟩ := lex_eq_ok lexed
  rcases List.mem_append.1 member with inFront | isLast
  · exact (going token inFront ended).elim
  · rw [List.mem_singleton.1 isLast]
    rfl

/-- The token that ends an input has no text, so it need not be compared. -/
theorem forall₂_alike_unplaced {tokens others : List Token}
    (same : List.Forall₂ SameWord tokens others)
    (empty : ∀ token ∈ tokens, token.kind = .eof → token.text = "")
    (otherEmpty : ∀ token ∈ others, token.kind = .eof → token.text = "") :
    List.Forall₂ (Alike fun _ => .start) tokens (others.map unplaced) := by
  induction same with
  | nil => exact .nil
  | @cons token other tokens others first _ induction =>
      obtain ⟨head, tail⟩ := List.forall_mem_cons.1 empty
      obtain ⟨otherHead, otherTail⟩ := List.forall_mem_cons.1 otherEmpty
      refine .cons (alike_unplaced first.kind fun varies => ?_) (induction tail otherTail)
      cases isKind : token.kind with
      | keyword word => simp [isKind, Kind.lexeme?] at varies
      | symbol sign => simp [isKind, Kind.lexeme?] at varies
      | eof => rw [head isKind, otherHead (first.kind.trans isKind)]
      | identifier | number | string => exact first.text (by rw [isKind]; rfl)

end Token

namespace Parser

/-- Two runs over tokens that are the same words agree with one and the same run without places. -/
theorem run_unplaced_eq {α : Type} {limit : Nat} {change : α → α} {routine : Parser α}
    (coupled : Coupled ⟨fun _ => .start, [], [], limit, 0⟩ change routine routine)
    {source other : String} {tokens others : List Token} (lexed : Token.lex source = .ok tokens)
    (otherLexed : Token.lex other = .ok others)
    (same : List.Forall₂ Token.SameWord tokens others) :
    ((run routine tokens).map change).mapError CompileError.unplaced =
      ((run routine others).map change).mapError CompileError.unplaced := by
  have toUnplaced := coupled.run_eq_relocate (Token.ended_of_lex lexed)
    (Token.forall₂_alike_unplaced same (fun _ => Token.text_of_eof lexed)
      fun _ => Token.text_of_eof otherLexed)
  have reflexive : List.Forall₂ Token.SameWord others others :=
    List.forall₂_same.2 fun _ _ => ⟨rfl, fun _ => rfl⟩
  have otherToUnplaced := coupled.run_eq_relocate (Token.ended_of_lex otherLexed)
    (Token.forall₂_alike_unplaced reflexive (fun _ => Token.text_of_eof otherLexed)
      fun _ => Token.text_of_eof otherLexed)
  exact toUnplaced.symm.trans otherToUnplaced

end Parser

namespace Program

/-- What becomes of a program once it has been read. -/
def translate (program : Program) : Except CompileError (List Compiled) := do
  program.check.mapError .semantic
  program.generate

theorem translate_unplaced (program : Program) :
    (program.relocate fun _ => .start).translate.mapError CompileError.unplaced =
      program.translate.mapError CompileError.unplaced := by
  rw [translate, translate, check_relocate, generate, generate, generateWith_relocate]
  cases program.check <;> rfl

end Program

theorem compile_eq_bind (limits : Limits) (source : String) :
    compile limits source = Program.parse limits source >>= Program.translate := rfl

theorem compile_unplaced (limits : Limits) (source : String) :
    (compile limits source).mapError CompileError.unplaced =
      ((Program.parse limits source).map (Program.relocate fun _ => .start)).mapError
          CompileError.unplaced >>=
        fun program => program.translate.mapError CompileError.unplaced := by
  rw [compile_eq_bind, mapError_bind]
  cases Program.parse limits source with
  | error error => rfl
  | ok program => exact (Program.translate_unplaced program).symm

/-- Sources with the same words compile to the same output, or fail for the same reason at places
that may differ. -/
theorem compile_depends_on_words {limits : Limits} {source other : String}
    {tokens others : List Token} (short : source.utf8ByteSize ≤ limits.sourceBytes)
    (otherShort : other.utf8ByteSize ≤ limits.sourceBytes) (lexed : Token.lex source = .ok tokens)
    (otherLexed : Token.lex other = .ok others)
    (same : List.Forall₂ Token.SameWord tokens others) :
    (∃ outputs, compile limits source = .ok outputs ∧ compile limits other = .ok outputs) ∨
      ∃ error otherError, compile limits source = .error error ∧
        compile limits other = .error otherError ∧ error.unplaced = otherError.unplaced := by
  have parsed := Parser.run_unplaced_eq (@Parser.coupled_program ⟨_, [], [], limits.depth, 0⟩)
    lexed otherLexed same
  rw [← Parser.runSource_eq short lexed, ← Parser.runSource_eq otherShort otherLexed] at parsed
  have compiled : (compile limits source).mapError CompileError.unplaced =
      (compile limits other).mapError CompileError.unplaced := by
    rw [compile_unplaced, compile_unplaced, Program.parse, Program.parse, parsed]
  generalize compile limits source = result at compiled ⊢
  generalize compile limits other = otherResult at compiled ⊢
  cases result with
  | ok outputs =>
      cases otherResult with
      | ok others => exact .inl ⟨outputs, rfl, by rw [Except.ok.inj compiled]⟩
      | error error => cases compiled
  | error error =>
      cases otherResult with
      | ok outputs => cases compiled
      | error otherError => exact .inr ⟨error, otherError, rfl, rfl, Except.error.inj compiled⟩

def bracesTokens : List Token :=
  [⟨.keyword .contract, "contract", ⟨0, 8⟩, ⟨1, 1⟩⟩, ⟨.identifier, "Log", ⟨9, 3⟩, ⟨1, 10⟩⟩,
    ⟨.symbol .lbrace, "\x7b", ⟨13, 1⟩, ⟨1, 14⟩⟩, ⟨.symbol .rbrace, "\x7d", ⟨14, 1⟩, ⟨1, 15⟩⟩,
    .endOfInput ⟨15, ⟨1, 16⟩⟩]

def wordsTokens : List Token :=
  [⟨.keyword .contract, "contract", ⟨0, 8⟩, ⟨1, 1⟩⟩, ⟨.identifier, "Log", ⟨16, 3⟩, ⟨2, 1⟩⟩,
    ⟨.symbol .lbrace, "begin", ⟨20, 5⟩, ⟨2, 5⟩⟩, ⟨.symbol .rbrace, "end", ⟨26, 3⟩, ⟨3, 1⟩⟩,
    .endOfInput ⟨29, ⟨3, 4⟩⟩]

theorem compile_braces_words :
    Token.lex "contract Log \x7b\x7d" = .ok bracesTokens ∧
      Token.lex "contract # name\nLog begin\nend" = .ok wordsTokens ∧
      List.Forall₂ Token.SameWord bracesTokens wordsTokens ∧
      ∃ outputs, compile ⟨29, 8⟩ "contract Log \x7b\x7d" = .ok outputs ∧
        compile ⟨29, 8⟩ "contract # name\nLog begin\nend" = .ok outputs := by
  have braces : Token.lex "contract Log \x7b\x7d" = .ok bracesTokens := by rfl
  have words : Token.lex "contract # name\nLog begin\nend" = .ok wordsTokens := by rfl
  have same : List.Forall₂ Token.SameWord bracesTokens wordsTokens :=
    .cons ⟨rfl, by decide⟩ (.cons ⟨rfl, by decide⟩ (.cons ⟨rfl, by decide⟩
      (.cons ⟨rfl, by decide⟩ (.cons ⟨rfl, by decide⟩ .nil))))
  refine ⟨braces, words, same, ?_⟩
  have compiles : (compile ⟨29, 8⟩ "contract Log \x7b\x7d").isOk = true := by cbv
  rcases @compile_depends_on_words ⟨29, 8⟩ _ _ _ _ (by decide) (by decide) braces words same with
    outputs | ⟨_, _, fails, _⟩
  · exact outputs
  · rw [fails] at compiles
    cases compiles

end Covenant
