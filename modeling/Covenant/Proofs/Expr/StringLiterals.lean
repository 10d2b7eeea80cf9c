import Covenant.Proofs.Expr.Parsing
import Covenant.Proofs.Expr.Printing
import Mathlib

/-! String literals. Every string has a literal that stands for it, and what a literal stands for
can be told from its text, one character or one escape at a time. -/

namespace Covenant

namespace Token

open Shape (escapeLetter?)

/-- What the text between the quotes of a literal stands for. -/
inductive LiteralValue : List Char → List Char → Prop where
  | nil : LiteralValue [] []
  | plain {c : Char} {body value : List Char} :
      c ≠ '"' → c ≠ '\\' → c ≠ '\n' → LiteralValue body value →
        LiteralValue (c :: body) (c :: value)
  | escape {c letter : Char} {body value : List Char} :
      escapeLetter? c = some letter → LiteralValue body value →
        LiteralValue ('\\' :: letter :: body) (c :: value)

theorem exists_escapeLetter? {letter : Char} (isEscapable : Lexeme.isEscapable letter = true) :
    ∃ c, escapeLetter? c = some letter := by
  simp only [Lexeme.isEscapable, Bool.or_eq_true, beq_iff_eq] at isEscapable
  rcases isEscapable with (((rfl | rfl) | rfl) | rfl) | rfl
  · exact ⟨'\n', rfl⟩
  · exact ⟨'\t', rfl⟩
  · exact ⟨'\r', rfl⟩
  · exact ⟨'\\', rfl⟩
  · exact ⟨'"', rfl⟩

theorem isSome_escapeLetter? (c : Char) :
    (escapeLetter? c).isSome = decide (c ∈ ['\n', '\t', '\r', '\\', '"']) := by
  unfold escapeLetter?
  split <;> simp_all

theorem LiteralBody.exists_value {escaped : Bool} {body : List Char}
    (literal : LiteralBody escaped body) : ∃ value, LiteralValue body value := by
  induction literal with
  | nil => exact ⟨[], .nil⟩
  | plain notQuote notSlash notLine _ induction =>
      obtain ⟨value, stands⟩ := induction
      exact ⟨_, .plain notQuote notSlash notLine stands⟩
  | escape isEscapable _ induction =>
      obtain ⟨value, stands⟩ := induction
      obtain ⟨c, isLetter⟩ := exists_escapeLetter? isEscapable
      exact ⟨_, .escape isLetter stands⟩

/-- The flag of a literal tells whether there is a backslash in it. -/
theorem LiteralBody.escaped_iff {escaped : Bool} {body : List Char}
    (literal : LiteralBody escaped body) : escaped = true ↔ '\\' ∈ body := by
  induction literal with
  | nil => simp
  | plain _ notSlash _ _ induction => rw [induction, List.mem_cons, or_iff_right notSlash.symm]
  | escape => simp

namespace LiteralValue

variable {body value : List Char} (stands : LiteralValue body value)

include stands

theorem go_unescape (done : List Char) : unescape.go done body = done.reverse ++ value := by
  induction stands generalizing done with
  | nil => simp [unescape.go]
  | plain _ notSlash _ _ induction =>
      rw [unescape.go, induction]
      · simp
      all_goals simp_all
  | escape isLetter _ induction =>
      rw [unescape.go, induction, (Shape.escapeLetter?_eq_some isLetter).2]
      simp

theorem eq_of_not_mem (noEscape : '\\' ∉ body) : body = value := by
  induction stands with
  | nil => rfl
  | plain _ _ _ _ induction => rw [induction (List.not_mem_of_not_mem_cons noEscape)]
  | escape => simp at noEscape

end LiteralValue

/-- The value of a string token is what its text stands for. -/
theorem literalValue_of_spelled {token : Token} {escaped : Bool}
    (isString : token.kind = .string escaped) (spelled : token.shape.Spelled) :
    ∃ body, token.text.toList = '"' :: body ++ ['"'] ∧ (escaped = true ↔ '\\' ∈ body) ∧
      LiteralValue body token.stringValue.toList := by
  have spells : Spells (.string escaped) token.text.toList := isString ▸ spelled
  obtain ⟨body, literal, isText⟩ := spells.literalBody
  obtain ⟨value, stands⟩ := literal.exists_value
  have inner : (token.text.toList.drop 1).dropLast = body := by simp [isText]
  have isValue : token.stringValue.toList = value := by
    rw [stringValue, inner, isString]
    cases escaped with
    | true => simp [unescape, stands.go_unescape]
    | false =>
        have noEscape : '\\' ∉ body := mt literal.escaped_iff.2 Bool.false_ne_true
        simp [stands.eq_of_not_mem noEscape]
  rw [isValue]
  exact ⟨body, isText, literal.escaped_iff, stands⟩

/-- The literal of a string, as text. -/
def literalText (value : String) : String :=
  (Shape.string value).text

/-- The token of the literal of a string, which covers it. It counts as escaped if the string has
one of the characters that literals are not written with. -/
def literalToken (value : String) : Token :=
  ⟨.string (value.toList.any fun c => c ∈ ['\n', '\t', '\r', '\\', '"']), literalText value,
    .ofBounds 0 (literalText value).utf8ByteSize, .start⟩

theorem lex_literal (value : String) :
    lex (literalText value) =
      .ok ([literalToken value] ++
        [endOfInput (Cursor.start.after (literalText value).toList)]) := by
  have lexed := lex_of_spelled (Shape.spelled_string value)
  simp only [Shape.string, isSome_escapeLetter?] at lexed
  exact lexed

theorem stringValue_of_shape {token other : Token} (same : token.shape = other.shape) :
    token.stringValue = other.stringValue := by
  have sameKind : token.kind = other.kind := congrArg Shape.kind same
  have sameText : token.text = other.text := congrArg Shape.text same
  rw [stringValue, stringValue, sameKind, sameText]

theorem stringValue_literalToken (value : String) : (literalToken value).stringValue = value := by
  have same : (literalToken value).shape = (Shape.string value).token.shape := by
    simp only [shape, literalToken, literalText, Shape.token, Shape.string, isSome_escapeLetter?]
  rw [stringValue_of_shape same, Shape.stringValue_token]

end Token

open Token (literalText literalToken)

theorem Expr.parse_literal (value : String) {limits : Limits}
    (short : (literalText value).utf8ByteSize ≤ limits.sourceBytes) (deep : 1 ≤ limits.depth) :
    parse limits (literalText value) = .ok (.literal .start (.string value)) := by
  have derives : Derives (.ofRank 7) [literalToken value]
      (.literal .start (.string (literalToken value).stringValue)) := .string rfl
  rw [Token.stringValue_literalToken] at derives
  have going : ∀ token ∈ [literalToken value], token.kind ≠ .eof := by
    intro token member
    obtain rfl := List.mem_singleton.1 member
    exact Token.Kind.noConfusion
  rw [parse, Parser.runSource_eq short (Token.lex_literal value), Parser.run_eq_ok_iff]
  exact (Parser.wholeExpr_eq_ok_iff going rfl deep).2 (derives.of_le (Nat.zero_le 7))

namespace Token

/-- Every string is the value of its literal, which is one token and one expression. The value of
every literal in a source is what its text stands for, and the literal of that value has it
again. -/
theorem string_literals_round_trip :
    (∀ value : String,
      lex (literalText value) =
          .ok [literalToken value, .endOfInput (Cursor.start.after (literalText value).toList)] ∧
        (literalToken value).stringValue = value ∧
        ∀ limits : Limits, (literalText value).utf8ByteSize ≤ limits.sourceBytes →
          1 ≤ limits.depth →
            Expr.parse limits (literalText value) = .ok (.literal .start (.string value))) ∧
    ∀ source tokens, lex source = .ok tokens → ∀ token ∈ tokens, ∀ escaped,
      token.kind = .string escaped →
        (∃ again last, lex (literalText token.stringValue) = .ok [again, last] ∧ last.kind = .eof ∧
          again.stringValue = token.stringValue) ∧
        ∃ body, token.text.toList = '"' :: body ++ ['"'] ∧ (escaped = true ↔ '\\' ∈ body) ∧
          LiteralValue body token.stringValue.toList ∧
          ('\\' ∉ body → token.stringValue.toList = body) := by
  constructor
  · intro value
    exact ⟨lex_literal value, stringValue_literalToken value, fun _ => Expr.parse_literal value⟩
  · intro source tokens lexed token member escaped isString
    have spelled : token.shape.Spelled :=
      spelled_of_lex lexed token member (by simp [isString])
    obtain ⟨body, isText, flagged, stands⟩ := literalValue_of_spelled isString spelled
    refine ⟨⟨literalToken token.stringValue, _, lex_literal _, rfl, stringValue_literalToken _⟩,
      body, isText, flagged, stands, ?_⟩
    intro noEscape
    exact (stands.eq_of_not_mem noEscape).symm

example : literalText "a\t\"é\"\\" = "\"a\\t\\\"é\\\"\\\\\"" := by decide

end Token

end Covenant
