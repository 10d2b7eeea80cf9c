import Covenant.Proofs.Lists
import Covenant.Proofs.Token.Lexing
import Mathlib

/-! A text is lexed line by line: no lexeme but blank text reaches over the end of a line, so the
tokens of two texts with a line feed between them are the tokens of both. -/

namespace Covenant

namespace Symbol

theorem ofPair?_blank {c d : Char} (blank : Text.isBlank d = true) : ofPair? c d = none := by
  unfold ofPair?
  split
  all_goals first | rfl | cases blank

/-- Every symbol of two characters starts with one of a single character. -/
theorem ofPair?_eq_none {c : Char} (single : ofChar? c = none) (d : Char) : ofPair? c d = none := by
  unfold ofPair?
  split
  all_goals first | rfl | cases single

theorem ofChar?_blank {c : Char} (blank : Text.isBlank c = true) : ofChar? c = none := by
  unfold ofChar?
  split
  all_goals first | rfl | cases blank

end Symbol

namespace Lexeme

theorem ink_of_between {c : Char} (low : 33 ≤ c.toNat) (high : c.toNat ≤ 126) :
    Text.isBlank c = false := by
  simp [Text.isBlank]
  omega

theorem ink_of_isWordStart {c : Char} (starts : isWordStart c = true) : Text.isBlank c = false := by
  simp only [isWordStart, Char.isAlpha, Char.isUpper, Char.isLower, Bool.or_eq_true,
    Bool.and_eq_true, decide_eq_true_eq, beq_iff_eq, UInt32.le_iff_toNat_le, ge_iff_le] at starts
  rcases starts with (⟨low, high⟩ | ⟨low, high⟩) | rfl
  · exact ink_of_between (Nat.le_trans (by decide) low) (Nat.le_trans high (by decide))
  · exact ink_of_between (Nat.le_trans (by decide) low) (Nat.le_trans high (by decide))
  · decide

theorem ink_of_isDigit {c : Char} (isDigit : c.isDigit = true) : Text.isBlank c = false := by
  simp only [Char.isDigit, Bool.and_eq_true, decide_eq_true_eq, UInt32.le_iff_toNat_le,
    ge_iff_le] at isDigit
  exact ink_of_between (Nat.le_trans (by decide) isDigit.1) (Nat.le_trans isDigit.2 (by decide))

theorem isDigit_blank {c : Char} (blank : Text.isBlank c = true) : c.isDigit = false := by
  rw [Bool.eq_false_iff]
  intro isDigit
  simp [ink_of_isDigit isDigit] at blank

theorem isWordStart_blank {c : Char} (blank : Text.isBlank c = true) : isWordStart c = false := by
  rw [Bool.eq_false_iff]
  intro starts
  simp [ink_of_isWordStart starts] at blank

theorem isWordChar_eq (c : Char) : isWordChar c = (isWordStart c || c.isDigit) := by
  simp only [isWordChar, isWordStart, Char.isAlphanum, Bool.or_assoc, Bool.or_comm (c == '_')]

/-! What stands before a character that separates tokens is read as if the text ended there. -/

/-- A character that no token goes on with. -/
structure Separates (stop : Char) : Prop where
  notWord : isWordChar stop = false
  notPoint : stop ≠ '.'
  notPair : ∀ c, Symbol.ofPair? c stop = none

theorem separates_of_blank {stop : Char} (blank : Text.isBlank stop = true) : Separates stop := by
  constructor
  · rw [isWordChar_eq, isWordStart_blank blank, isDigit_blank blank]
    rfl
  · rintro rfl
    cases blank
  · intro c
    exact Symbol.ofPair?_blank blank

theorem Separates.notDigit {stop : Char} (separates : Separates stop) : stop.isDigit = false := by
  have notWord := separates.notWord
  rw [isWordChar_eq, Bool.or_eq_false_iff] at notWord
  exact notWord.2

theorem startsFraction_cons_cons (c d : Char) (rest : List Char) :
    startsFraction (c :: d :: rest) = (c == '.' && d.isDigit) := by
  by_cases point : c = '.'
  · subst point
    rfl
  · simp [startsFraction, point]

section

variable {stop : Char} (separates : Separates stop)

include separates

theorem symbol?_append (c : Char) (rest more : List Char) :
    symbol? c (rest ++ stop :: more) = symbol? c rest := by
  cases rest with
  | nil => simp [symbol?, separates.notPair c]
  | cons d rest => simp [symbol?]

theorem startsFraction_append (text more : List Char) :
    startsFraction (text ++ stop :: more) = startsFraction text := by
  match text with
  | [] => simp [startsFraction, separates.notPoint]
  | [c] =>
      rw [List.singleton_append, startsFraction_cons_cons, separates.notDigit]
      simp [startsFraction]
  | c :: d :: rest => simp only [List.cons_append, startsFraction_cons_cons]

theorem scanNumber_append (text more : List Char) :
    scanNumber (text ++ stop :: more) = scanNumber text := by
  have stops := separates.notDigit
  rw [scanNumber, scanNumber]
  simp only [takeWhile_append_cons stops, dropWhile_append_cons stops,
    startsFraction_append separates]
  split
  · next starts =>
      obtain ⟨c, rest, fraction, _⟩ := eq_of_startsFraction starts
      simp only [fraction, List.cons_append, List.tail_cons]
      rw [← List.cons_append, takeWhile_append_cons stops, dropWhile_append_cons stops,
        startsFraction_append separates]
  · rfl

end

theorem scanString_append {escaped : Bool} {read text : List Char} {lexeme : Lexeme}
    (scanned : scanString escaped read text = .ok lexeme) (more : List Char) :
    scanString escaped read (text ++ more) = .ok lexeme := by
  fun_induction scanString escaped read text with
  | case1 | case3 | case4 | case5 | case7 => cases scanned
  | case2 escaped read rest => simpa [scanString] using scanned
  | case6 escaped read c rest other isEscapable induction =>
      simp [scanString, isEscapable, induction scanned]
  | case8 escaped read c rest notQuote notLine notLast _ notEscape induction =>
      have notSlash : c ≠ '\\' := by
        intro isSlash
        cases rest with
        | nil => exact notLast isSlash rfl
        | cons d rest => exact notEscape d rest isSlash rfl
      rw [List.cons_append, scanString]
      · exact induction scanned
      all_goals simp_all

/-- A comment goes on over other characters up to the end of its line. -/
theorem scan_append {c stop : Char} {rest : List Char} {lexeme : Lexeme}
    (ink : Text.isBlank c = false) (separates : Separates stop)
    (scanned : scan c rest = .ok lexeme) (ends : lexeme.kind ≠ none ∨ stop = '\n')
    (more : List Char) : scan c (rest ++ stop :: more) = .ok lexeme := by
  rw [scan] at scanned ⊢
  rw [symbol?_append separates]
  split at scanned
  · exact scanned
  · simp only [takeWhile_append_cons separates.notWord, ink, Bool.false_eq_true, if_false]
    split at scanned
    · next isComment =>
        rw [if_pos isComment]
        cases scanned
        rcases ends with isToken | rfl
        · exact (isToken rfl).elim
        · rw [takeWhile_append_cons (show isCommentChar '\n' = false by decide)]
    next notComment =>
    rw [if_neg notComment]
    split at scanned
    · next isQuote =>
        rw [if_pos isQuote]
        exact scanString_append scanned _
    next notQuote =>
    rw [if_neg notQuote]
    split at scanned
    · next isWord => rwa [if_pos isWord]
    next notWord =>
    rw [if_neg notWord]
    split at scanned
    · next isDigit =>
        rw [if_pos isDigit, ← List.cons_append, scanNumber_append separates]
        exact scanned
    · simp [ink] at scanned

theorem symbol?_eq_none {c : Char} (single : Symbol.ofChar? c = none) (rest : List Char) :
    symbol? c rest = none := by
  have noPair : rest.head?.bind (Symbol.ofPair? c) = none := by
    cases rest with
    | nil => rfl
    | cons d rest => exact Symbol.ofPair?_eq_none single d
  rw [symbol?, noPair, single]
  rfl

theorem scan_blank {c : Char} (blank : Text.isBlank c = true) (rest : List Char) :
    scan c rest = .ok ⟨none, c :: rest.takeWhile Text.isBlank⟩ := by
  have notComment : c ≠ '#' := by
    rintro rfl
    cases blank
  have notQuote : c ≠ '"' := by
    rintro rfl
    cases blank
  simp only [scan, symbol?_eq_none (Symbol.ofChar?_blank blank), if_neg notComment,
    if_neg notQuote, isWordStart_blank blank, isDigit_blank blank, Bool.false_eq_true, if_false,
    if_pos blank]

end Lexeme

namespace Token

theorem lexFrom_blank {c : Char} (blank : Text.isBlank c = true) (tokens : List Token)
    (cursor : Cursor) (text : List Char) :
    lexFrom tokens cursor 0 (c :: text) = lexFrom tokens (cursor.next c) 0 text := by
  have whole (c : Char) (blank : Text.isBlank c = true) (cursor : Cursor) (text : List Char) :
      lexFrom tokens cursor 0 (c :: text) =
        lexFrom tokens (cursor.after (c :: text.takeWhile Text.isBlank)) 0
          (text.dropWhile Text.isBlank) :=
    lexFrom_of_scan (Lexeme.scan_blank blank text) (by simp)
  rw [whole c blank]
  cases text with
  | nil => rfl
  | cons d text =>
      cases follows : Text.isBlank d with
      | true =>
          rw [whole d follows, List.takeWhile_cons_of_pos follows,
            List.dropWhile_cons_of_pos follows]
          rfl
      | false =>
          rw [List.takeWhile_cons_of_neg (by simp [follows]),
            List.dropWhile_cons_of_neg (by simp [follows])]
          rfl

/-- After a text that can be lexed and a line feed, lexing goes on as in the next text. -/
theorem lexFrom_line {tokens result : List Token} {cursor : Cursor} {text : List Char}
    (lexed : lexFrom tokens cursor 0 text = .ok result) (more : List Char) :
    lexFrom tokens cursor 0 (text ++ '\n' :: more) =
      lexFrom result.dropLast.reverse ((cursor.after text).next '\n') 0 more := by
  match text with
  | [] =>
      cases lexed
      simpa using lexFrom_blank (show Text.isBlank '\n' = true by decide) tokens cursor more
  | c :: rest =>
      -- Blank text is the only lexeme that would take the line feed as well, so it is not taken
      -- whole but one character at a time.
      cases blank : Text.isBlank c with
      | true =>
          rw [lexFrom_blank blank] at lexed
          rw [List.cons_append, lexFrom_blank blank, lexFrom_line lexed, Cursor.after_cons]
      | false =>
          cases scanned : Lexeme.scan c rest with
          | error fault => simp [lexFrom, scanned] at lexed
          | ok lexeme =>
              have fronts := Lexeme.fronts_scan scanned
              obtain ⟨after, split⟩ := fronts.isPrefix
              have shorter : after.length < rest.length + 1 := fronts.length_lt split
              rw [lexFrom_of_scan scanned split.symm] at lexed
              have separates := Lexeme.separates_of_blank (show Text.isBlank '\n' = true by decide)
              have goes := Lexeme.scan_append blank separates scanned (.inr rfl) more
              rw [List.cons_append, lexFrom_of_scan goes
                (by rw [← List.cons_append, ← split, List.append_assoc]), lexFrom_line lexed,
                ← split, Cursor.after_append]
termination_by text.length

theorem lexFrom_append (tokens before : List Token) (cursor : Cursor) (skip : Nat)
    (text : List Char) :
    lexFrom (tokens ++ before) cursor skip text =
      (lexFrom tokens cursor skip text).map (before.reverse ++ ·) := by
  fun_induction lexFrom tokens cursor skip text with
  | case1 tokens cursor skip => simp [lexFrom, Except.map]
  | case2 tokens cursor skip c rest induction => rw [lexFrom, induction]
  | case3 tokens cursor c rest fault scanned => simp [lexFrom, scanned, Except.map]
  | case4 tokens cursor c rest lexeme scanned after induction =>
      rw [lexFrom, scanned, ← induction, List.append_assoc]

end Token

/-! Moving a text down by some lines moves its tokens and its errors. -/

def Position.shift (lines : Nat) (pos : Position) : Position :=
  ⟨pos.line + lines, pos.column⟩

def Cursor.shift (bytes lines : Nat) (cursor : Cursor) : Cursor :=
  ⟨cursor.offset + bytes, cursor.pos.shift lines⟩

def Token.shift (bytes lines : Nat) (token : Token) : Token :=
  { token with span := ⟨token.span.lo + bytes, token.span.len⟩, pos := token.pos.shift lines }

namespace Cursor

theorem shift_next (bytes lines : Nat) (cursor : Cursor) (c : Char) :
    (cursor.shift bytes lines).next c = (cursor.next c).shift bytes lines := by
  simp only [next, shift, Position.next, Position.shift]
  split <;> simp <;> omega

theorem shift_after (bytes lines : Nat) (cursor : Cursor) (text : List Char) :
    (cursor.shift bytes lines).after text = (cursor.after text).shift bytes lines := by
  induction text generalizing cursor with
  | nil => rfl
  | cons c text induction => rw [after_cons, after_cons, shift_next, induction]

/-- The cursor after a line feed is where a text starts, moved. -/
theorem next_lineFeed (cursor : Cursor) :
    cursor.next '\n' = Cursor.start.shift (cursor.offset + 1) cursor.pos.line := by
  simp [next, shift, Position.next, Position.shift, start, Position.start, Nat.add_comm]
  rfl

end Cursor

theorem Lexeme.token?_shift (bytes lines : Nat) (lexeme : Lexeme) (before after : Cursor) :
    lexeme.token? (before.shift bytes lines) (after.shift bytes lines) =
      (lexeme.token? before after).map (Token.shift bytes lines) := by
  cases kind : lexeme.kind with
  | none => simp [token?, kind]
  | some kind =>
      simp [token?, kind, Token.shift, Cursor.shift, Span.ofBounds, Nat.add_sub_add_right]

namespace Token

theorem shift_endOfInput (bytes lines : Nat) (cursor : Cursor) :
    (endOfInput cursor).shift bytes lines = endOfInput (cursor.shift bytes lines) := by
  simp [endOfInput, shift, Cursor.shift, Span.ofBounds]

theorem lexFrom_shift (bytes lines : Nat) (tokens : List Token) (cursor : Cursor) (skip : Nat)
    (text : List Char) :
    lexFrom (tokens.map (shift bytes lines)) (cursor.shift bytes lines) skip text =
      ((lexFrom tokens cursor skip text).map (List.map (shift bytes lines))).mapError
        fun error => ⟨error.pos.shift lines, error.value⟩ := by
  fun_induction lexFrom tokens cursor skip text with
  | case1 tokens cursor skip =>
      simp [lexFrom, Except.map, Except.mapError, shift_endOfInput]
  | case2 tokens cursor skip c rest induction => exact induction
  | case3 tokens cursor c rest fault scanned =>
      rw [lexFrom, scanned]
      simp only [Cursor.shift_after]
      rfl
  | case4 tokens cursor c rest lexeme scanned after induction =>
      rw [lexFrom, scanned]
      simp only [Cursor.shift_after, Lexeme.token?_shift, ← induction, List.map_append,
        Option.toList_map]
      rfl

theorem lex_line {first : String} {tokens : List Token} {end_ : Cursor}
    (ends : Cursor.start.after first.toList = end_) (lexed : lex first = .ok tokens)
    (second : String) :
    lex (first ++ "\n" ++ second) =
      ((lex second).map fun more =>
        tokens.dropLast ++ more.map (shift (end_.offset + 1) end_.pos.line)).mapError
          fun error => ⟨error.pos.shift end_.pos.line, error.value⟩ := by
  have text : (first ++ "\n" ++ second).toList = first.toList ++ '\n' :: second.toList := by simp
  rw [lex, text, lexFrom_line lexed, ends, Cursor.next_lineFeed,
    ← List.nil_append tokens.dropLast.reverse, lexFrom_append, List.reverse_reverse,
    ← List.map_nil, lexFrom_shift, lex]
  cases lexFrom [] .start 0 second.toList <;> rfl

end Token

/-! Where a text ends: its bytes give the offset, its line feeds the line. -/

namespace Cursor

theorem offset_after (cursor : Cursor) (text : List Char) :
    (cursor.after text).offset = cursor.offset + String.utf8Len text := by
  induction text generalizing cursor with
  | nil => rfl
  | cons c text induction =>
      rw [after_cons, induction, String.utf8Len_cons, Nat.add_comm (String.utf8Len text)]
      exact Nat.add_assoc _ _ _

theorem line_after (cursor : Cursor) (text : List Char) :
    (cursor.after text).pos.line = cursor.pos.line + text.count '\n' := by
  induction text generalizing cursor with
  | nil => rfl
  | cons c text induction =>
      rw [after_cons, induction, List.count_cons, next, Position.next]
      by_cases ends : c = '\n'
      · simp [ends]
        omega
      · simp [ends]

end Cursor

namespace Token

/-- Lexing composes over lines. The tokens of the second text follow those of the first without its
end, moved by the bytes and line feeds before them; an error in the second text is moved likewise. -/
theorem lex_two_lines {first : String} {tokens : List Token} (lexed : lex first = .ok tokens)
    (second : String) :
    ∃ front last, tokens = front ++ [last] ∧ last.kind = .eof ∧
      (∀ token ∈ front, token.kind ≠ .eof) ∧
      (∀ more, lex second = .ok more →
        lex (first ++ "\n" ++ second) = .ok (front ++
          more.map (shift (first.utf8ByteSize + 1) (1 + first.toList.count '\n')))) ∧
      ∀ error, lex second = .error error →
        lex (first ++ "\n" ++ second) =
          .error ⟨error.pos.shift (1 + first.toList.count '\n'), error.value⟩ := by
  obtain ⟨front, last, rfl, going⟩ := lex_eq_ok lexed
  have offset : (Cursor.start.after first.toList).offset = first.utf8ByteSize := by
    rw [Cursor.offset_after, String.utf8Len_toList]
    exact Nat.zero_add _
  have line : (Cursor.start.after first.toList).pos.line = 1 + first.toList.count '\n' :=
    Cursor.line_after .start first.toList
  have joined := lex_line rfl lexed second
  rw [offset, line, List.dropLast_concat] at joined
  refine ⟨front, endOfInput last, rfl, rfl, going, ?_, ?_⟩
  · intro more lexedSecond
    rw [joined, lexedSecond]
    rfl
  · intro error failed
    rw [joined, failed]
    rfl

/-- The tokens of a text with an open quote in its comment, up to the end. -/
def openQuoteTokens : List Token :=
  [⟨.identifier, "x", ⟨0, 1⟩, ⟨1, 1⟩⟩, ⟨.symbol .eqEq, "==", ⟨8, 2⟩, ⟨2, 1⟩⟩]

/-- The symbol that ends the first text does not take in the equals sign of the next line. -/
theorem lex_symbols_on_two_lines :
    lex "x # \"é\n==" = .ok (openQuoteTokens ++ [.endOfInput ⟨10, ⟨2, 3⟩⟩]) ∧
      lex "= y" = .ok [⟨.symbol .assign, "=", ⟨0, 1⟩, ⟨1, 1⟩⟩,
        ⟨.identifier, "y", ⟨2, 1⟩, ⟨1, 3⟩⟩, .endOfInput ⟨3, ⟨1, 4⟩⟩] ∧
      lex ("x # \"é\n==" ++ "\n" ++ "= y") = .ok (openQuoteTokens ++
        [⟨.symbol .assign, "=", ⟨11, 1⟩, ⟨3, 1⟩⟩, ⟨.identifier, "y", ⟨13, 1⟩, ⟨3, 3⟩⟩,
          .endOfInput ⟨14, ⟨3, 4⟩⟩]) ∧
      lex ("x # \"é\n==" ++ "\n" ++ "\"") = .error ⟨⟨3, 1⟩, .unterminatedString⟩ := by
  have first : lex "x # \"é\n==" = .ok (openQuoteTokens ++ [.endOfInput ⟨10, ⟨2, 3⟩⟩]) := by rfl
  have second : lex "= y" = .ok [⟨.symbol .assign, "=", ⟨0, 1⟩, ⟨1, 1⟩⟩,
      ⟨.identifier, "y", ⟨2, 1⟩, ⟨1, 3⟩⟩, .endOfInput ⟨3, ⟨1, 4⟩⟩] := by rfl
  obtain ⟨front, last, split, -, -, joined, -⟩ := lex_two_lines first "= y"
  obtain ⟨-, -, -, -, -, -, failed⟩ := lex_two_lines first "\""
  obtain rfl : openQuoteTokens = front := List.append_inj_left' split rfl
  exact ⟨first, second, joined _ second, failed ⟨⟨1, 1⟩, .unterminatedString⟩ rfl⟩

end Token

end Covenant
