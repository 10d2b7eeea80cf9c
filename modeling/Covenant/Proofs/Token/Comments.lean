import Covenant.Proofs.Token.Tiling
import Mathlib

/-! Comments leave no trace in the tokens but the bytes they take. Only a NUL character, which ends
a comment before its line does, is noticed. -/

namespace Covenant

namespace Lexeme

theorem separates_hash : Separates '#' := by
  constructor
  · decide
  · decide
  · intro c
    unfold Symbol.ofPair?
    split
    all_goals first | rfl | simp_all

theorem isCommentChar_of_ne {text : List Char} (inLine : '\n' ∉ text) (noNul : '\x00' ∉ text) :
    ∀ c ∈ text, isCommentChar c = true := by
  intro c member
  simp only [isCommentChar, Bool.and_eq_true, bne_iff_ne]
  exact ⟨ne_of_mem_of_not_mem member inLine, ne_of_mem_of_not_mem member noNul⟩

/-- What ends a comment: the end of the text, or a character that comments do not hold. -/
def EndsComment (rest : List Char) : Prop :=
  ∀ c ∈ rest.head?, isCommentChar c = false

theorem endsComment_nil : EndsComment [] := by
  intro c isHead
  cases isHead

theorem takeWhile_isCommentChar {body rest : List Char}
    (inside : ∀ c ∈ body, isCommentChar c = true) (ends : EndsComment rest) :
    (body ++ rest).takeWhile isCommentChar = body := by
  rw [List.takeWhile_append_of_pos inside]
  cases rest with
  | nil => exact List.append_nil body
  | cons c rest => rw [List.takeWhile_cons_of_neg (by simp [ends c rfl]), List.append_nil]

/-- A lexeme before the mark of a comment is read as if the text ended there, unless it is a comment
itself, which then takes in the mark. -/
theorem scan_append_hash {c : Char} {rest : List Char} {lexeme : Lexeme}
    (ink : Text.isBlank c = false) (scanned : scan c rest = .ok lexeme) :
    (c = '#' ∧ ∀ d ∈ rest, isCommentChar d = true) ∨
      ∀ more, scan c (rest ++ '#' :: more) = .ok lexeme := by
  obtain ⟨kind, text⟩ := lexeme
  cases kind with
  | some kind =>
      right
      intro more
      exact scan_append ink separates_hash scanned (.inl (by simp)) more
  | none =>
      obtain ⟨isMark, isText⟩ := comment_of_scan ink scanned
      subst isMark isText
      have split := List.takeWhile_append_dropWhile (p := isCommentChar) (l := rest)
      cases remaining : rest.dropWhile isCommentChar with
      | nil =>
          left
          exact ⟨rfl, List.dropWhile_eq_nil_iff.1 remaining⟩
      | cons d after =>
          right
          intro more
          have ends : isCommentChar d = false := by
            simpa [remaining] using List.head?_dropWhile_not isCommentChar rest
          rw [remaining] at split
          rw [scan_comment, ← split, List.append_assoc, List.cons_append,
            takeWhile_append_cons ends, takeWhile_append_cons ends]

end Lexeme

namespace Token

open Lexeme (EndsComment isCommentChar)

theorem lexFrom_of_comment (tokens : List Token) (cursor : Cursor) {body rest : List Char}
    (inside : ∀ c ∈ body, isCommentChar c = true) (ends : EndsComment rest) :
    lexFrom tokens cursor 0 ('#' :: (body ++ rest)) =
      lexFrom tokens (cursor.after ('#' :: body)) 0 rest := by
  have scanned := Lexeme.scan_comment (body ++ rest)
  rw [Lexeme.takeWhile_isCommentChar inside ends] at scanned
  exact lexFrom_of_scan scanned rfl

/-- After a text that can be lexed, a comment is passed over. The text may end inside a comment, of
which the new one is then the rest. -/
theorem lexFrom_append_comment {tokens result : List Token} {cursor : Cursor} {text : List Char}
    (lexed : lexFrom tokens cursor 0 text = .ok result) {body rest : List Char}
    (inside : ∀ c ∈ body, isCommentChar c = true) (ends : EndsComment rest) :
    lexFrom tokens cursor 0 (text ++ '#' :: (body ++ rest)) =
      lexFrom result.dropLast.reverse (cursor.after (text ++ '#' :: body)) 0 rest := by
  match text with
  | [] =>
      cases lexed
      simpa using lexFrom_of_comment tokens cursor inside ends
  | c :: others =>
      cases blank : Text.isBlank c with
      | true =>
          rw [lexFrom_blank blank] at lexed
          rw [List.cons_append, lexFrom_blank blank, lexFrom_append_comment lexed inside ends]
          rfl
      | false =>
          cases scanned : Lexeme.scan c others with
          | error fault => simp [lexFrom, scanned] at lexed
          | ok lexeme =>
              rcases Lexeme.scan_append_hash blank scanned with ⟨isMark, opened⟩ | goes
              · -- The text ends inside a comment, which the mark does not end.
                subst isMark
                have alone := lexFrom_of_comment tokens cursor opened Lexeme.endsComment_nil
                rw [List.append_nil] at alone
                rw [alone] at lexed
                cases lexed
                have longer : ∀ d ∈ others ++ '#' :: body, isCommentChar d = true :=
                  List.forall_mem_append.2 ⟨opened, List.forall_mem_cons.2 ⟨by decide, inside⟩⟩
                have passes := lexFrom_of_comment tokens cursor longer ends
                rw [List.append_assoc, List.cons_append] at passes
                simpa using passes
              · have fronts := Lexeme.fronts_scan scanned
                obtain ⟨after, split⟩ := fronts.isPrefix
                have shorter : after.length < others.length + 1 := fronts.length_lt split
                rw [lexFrom_of_scan scanned split.symm] at lexed
                rw [List.cons_append, lexFrom_of_scan (goes _)
                  (by rw [← List.cons_append, ← split, List.append_assoc]),
                  lexFrom_append_comment lexed inside ends, ← split, List.append_assoc,
                  Cursor.after_append _ lexeme.text]
termination_by text.length

theorem shift_shift (bytes lines moreBytes moreLines : Nat) (token : Token) :
    (token.shift bytes lines).shift moreBytes moreLines =
      token.shift (bytes + moreBytes) (lines + moreLines) := by
  simp [shift, Position.shift, Nat.add_assoc]

section

variable {source comment : String} {tokens : List Token}

theorem lex_append_comment (lexed : lex source = .ok tokens)
    (inside : ∀ c ∈ comment.toList, isCommentChar c = true) :
    ∃ last, lex (source ++ "#" ++ comment) = .ok (tokens.dropLast ++ [last]) := by
  have text : (source ++ "#" ++ comment).toList =
      source.toList ++ '#' :: (comment.toList ++ []) := by simp
  refine ⟨endOfInput (Cursor.start.after (source.toList ++ '#' :: comment.toList)), ?_⟩
  rw [lex, text, lexFrom_append_comment lexed inside Lexeme.endsComment_nil, lexFrom]
  simp

/-- The end of a text with a comment is on the same line as without it. -/
theorem after_comment (inLine : '\n' ∉ comment.toList) :
    (Cursor.start.after (source ++ "#" ++ comment).toList).offset =
        (Cursor.start.after source.toList).offset + ("#" ++ comment).utf8ByteSize ∧
      (Cursor.start.after (source ++ "#" ++ comment).toList).pos.line =
        (Cursor.start.after source.toList).pos.line := by
  have text : (source ++ "#" ++ comment).toList = source.toList ++ ("#" ++ comment).toList := by
    simp
  have noLine : ("#" ++ comment).toList.count '\n' = 0 := by
    simpa [List.count_eq_zero] using inLine
  rw [text, Cursor.after_append, Cursor.offset_after _ ("#" ++ comment).toList,
    Cursor.line_after _ ("#" ++ comment).toList, String.utf8Len_toList, noLine]
  exact ⟨rfl, rfl⟩

/-- What follows a line with a comment is what follows the line without it, moved. -/
theorem lex_line_after_comment (lexed : lex source = .ok tokens) (inLine : '\n' ∉ comment.toList)
    (inside : ∀ c ∈ comment.toList, isCommentChar c = true) (rest : String) :
    ∃ following : Except (Located LexError) (List Token),
      lex (source ++ "\n" ++ rest) = following.map (tokens.dropLast ++ ·) ∧
        lex (source ++ "#" ++ comment ++ "\n" ++ rest) = following.map fun more =>
          tokens.dropLast ++ more.map (shift ("#" ++ comment).utf8ByteSize 0) := by
  obtain ⟨last, commented⟩ := lex_append_comment lexed inside
  obtain ⟨offset, line⟩ := @after_comment source comment inLine
  have plain := lex_line rfl lexed rest
  have moved := lex_line rfl commented rest
  rw [List.dropLast_concat, offset, line] at moved
  let start := Cursor.start.after source.toList
  refine ⟨((lex rest).map (List.map (shift (start.offset + 1) start.pos.line))).mapError
    fun error => ⟨error.pos.shift start.pos.line, error.value⟩, ?_, ?_⟩
  · rw [plain]
    cases lex rest <;> rfl
  · have both : shift (start.offset + ("#" ++ comment).utf8ByteSize + 1) start.pos.line =
        shift ("#" ++ comment).utf8ByteSize 0 ∘ shift (start.offset + 1) start.pos.line := by
      funext token
      rw [Function.comp_apply, shift_shift, Nat.add_right_comm]
      rfl
    rw [moved, both]
    cases lex rest with
    | error error => rfl
    | ok more => simp [Except.map, Except.mapError]

/-- A NUL character in a comment is reported, as it would be outside. -/
theorem lex_comment_nul (lexed : lex source = .ok tokens) {body after : List Char}
    (inside : ∀ c ∈ body, isCommentChar c = true)
    (split : comment.toList = body ++ '\x00' :: after) (rest : String) :
    lex (source ++ "#" ++ comment ++ rest) =
      .error ⟨(Cursor.start.after (source.toList ++ '#' :: body)).pos, .unexpectedChar '\x00'⟩ := by
  have text : (source ++ "#" ++ comment ++ rest).toList =
      source.toList ++ '#' :: (body ++ '\x00' :: (after ++ rest.toList)) := by
    simp [split]
  have ends : EndsComment ('\x00' :: (after ++ rest.toList)) := by
    intro c isHead
    obtain rfl := Option.some.inj isHead
    decide
  rw [lex, text, lexFrom_append_comment lexed inside ends, lexFrom, Lexeme.scan_nul]
  rfl

/-- A comment without NUL characters is invisible: the same tokens follow its line, moved by its
bytes, or the same error. The first NUL character in a comment is an error at its place. -/
theorem lex_commented_line (lexed : lex source = .ok tokens) (inLine : '\n' ∉ comment.toList)
    (rest : String) :
    ∃ front last, tokens = front ++ [last] ∧ last.kind = .eof ∧
      (∀ token ∈ front, token.kind ≠ .eof) ∧
      ('\x00' ∉ comment.toList →
        (∀ result, lex (source ++ "\n" ++ rest) = .ok result → ∃ more, result = front ++ more ∧
          lex (source ++ "#" ++ comment ++ "\n" ++ rest) =
            .ok (front ++ more.map (shift ("#" ++ comment).utf8ByteSize 0))) ∧
        ∀ error, lex (source ++ "\n" ++ rest) = .error error →
          lex (source ++ "#" ++ comment ++ "\n" ++ rest) = .error error) ∧
      ∀ body after, comment.toList = body ++ '\x00' :: after → '\x00' ∉ body →
        lex (source ++ "#" ++ comment ++ "\n" ++ rest) =
          .error ⟨(Cursor.start.after (source.toList ++ '#' :: body)).pos,
            .unexpectedChar '\x00'⟩ := by
  obtain ⟨front, cursor, rfl, going⟩ := lex_eq_ok lexed
  refine ⟨front, endOfInput cursor, rfl, rfl, going, ?_, ?_⟩
  · intro noNul
    obtain ⟨following, plain, commented⟩ :=
      lex_line_after_comment lexed inLine (Lexeme.isCommentChar_of_ne inLine noNul) rest
    rw [List.dropLast_concat] at plain commented
    rw [plain, commented]
    cases following with
    | error error =>
        refine ⟨?_, ?_⟩
        · intro result succeeds
          cases succeeds
        · intro other fails
          exact fails
    | ok more =>
        refine ⟨?_, ?_⟩
        · intro result succeeds
          cases succeeds
          exact ⟨more, rfl, rfl⟩
        · intro other fails
          cases fails
  · intro body after split noNul
    have inLineToo : '\n' ∉ body := by
      intro member
      exact inLine (by simp [split, member])
    rw [String.append_assoc]
    exact lex_comment_nul lexed (Lexeme.isCommentChar_of_ne inLineToo noNul) split ("\n" ++ rest)

end

/-- Quotes, operators and marks in a comment are not read. -/
theorem lex_quote_commented :
    lex "a" = .ok [⟨.identifier, "a", ⟨0, 1⟩, ⟨1, 1⟩⟩, .endOfInput ⟨1, ⟨1, 2⟩⟩] ∧
      '\n' ∉ "é # == \"".toList ∧ '\x00' ∉ "é # == \"".toList ∧
      lex ("a" ++ "#" ++ "é # == \"" ++ "\n" ++ "b") =
        .ok [⟨.identifier, "a", ⟨0, 1⟩, ⟨1, 1⟩⟩, ⟨.identifier, "b", ⟨12, 1⟩, ⟨2, 1⟩⟩,
          .endOfInput ⟨13, ⟨2, 2⟩⟩] := by
  have lexed : lex "a" = .ok [⟨.identifier, "a", ⟨0, 1⟩, ⟨1, 1⟩⟩, .endOfInput ⟨1, ⟨1, 2⟩⟩] := by rfl
  have inLine : '\n' ∉ "é # == \"".toList := by decide
  have noNul : '\x00' ∉ "é # == \"".toList := by decide
  have plain : lex ("a" ++ "\n" ++ "b") =
      .ok ([⟨.identifier, "a", ⟨0, 1⟩, ⟨1, 1⟩⟩] ++
        [⟨.identifier, "b", ⟨2, 1⟩, ⟨2, 1⟩⟩, .endOfInput ⟨3, ⟨2, 2⟩⟩]) := by rfl
  obtain ⟨front, last, split, -, -, invisible, -⟩ := lex_commented_line lexed inLine "b"
  obtain ⟨more, same, commented⟩ := (invisible noNul).1 _ plain
  obtain rfl : [⟨.identifier, "a", ⟨0, 1⟩, ⟨1, 1⟩⟩] = front := List.append_inj_left' split rfl
  obtain rfl := List.append_cancel_left same
  exact ⟨lexed, inLine, noNul, commented⟩

/-- A comment with a NUL character is not invisible. -/
theorem nul_ends_comment :
    '\n' ∉ "\x00".toList ∧
      lex "a" = .ok [⟨.identifier, "a", ⟨0, 1⟩, ⟨1, 1⟩⟩, .endOfInput ⟨1, ⟨1, 2⟩⟩] ∧
      lex ("a" ++ "\n" ++ "b") = .ok [⟨.identifier, "a", ⟨0, 1⟩, ⟨1, 1⟩⟩,
        ⟨.identifier, "b", ⟨2, 1⟩, ⟨2, 1⟩⟩, .endOfInput ⟨3, ⟨2, 2⟩⟩] ∧
      lex ("a" ++ "#" ++ "\x00" ++ "\n" ++ "b") = .error ⟨⟨1, 3⟩, .unexpectedChar '\x00'⟩ := by
  refine ⟨by decide, ?_, ?_, ?_⟩
  · rfl
  · rfl
  · rfl

end Token

end Covenant
