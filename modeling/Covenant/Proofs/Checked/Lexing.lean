import Covenant.Proofs.Checked.Lexer

/-! The checked lexer finds the same tokens as cutting lexemes off the front of the text, and their
texts can be taken from the source again. -/

namespace Covenant

/-! Tokens whose texts can be taken from the source again. -/

/-- The span of a token is where its text stands in the source. -/
def Token.Placed (source : String) (token : Token) : Prop :=
  ∃ before after, source.toList = before ++ (token.text.toList ++ after) ∧
    token.span = .ofBounds (Cursor.start.after before).offset
      (Cursor.start.after (before ++ token.text.toList)).offset

/-- The cursor stands `skip` characters behind the start of `text`, with which the source ends. -/
def Cursor.Ahead (source : String) (skip : Nat) (text : List Char) (cursor : Cursor) : Prop :=
  ∃ before, source.toList = before ++ text ∧ skip ≤ text.length ∧
    cursor = Cursor.start.after (before ++ text.take skip)

namespace Cursor.Ahead

variable {source : String} {cursor : Cursor} {c : Char} {rest : List Char}

theorem start (source : String) : Ahead source 0 source.toList .start :=
  ⟨[], rfl, Nat.zero_le _, rfl⟩

theorem skip {count : Nat} (ahead : Ahead source (count + 1) (c :: rest) cursor) :
    Ahead source count rest cursor := by
  obtain ⟨before, parts, inside, rfl⟩ := ahead
  refine ⟨before ++ [c], by simp [parts], Nat.le_of_succ_le_succ inside, ?_⟩
  rw [List.take_succ_cons, List.append_assoc, List.singleton_append]

/-- Behind the next lexeme. -/
theorem next {lexeme : Lexeme} (fronts : lexeme.Fronts (c :: rest))
    (ahead : Ahead source 0 (c :: rest) cursor) :
    Ahead source (lexeme.text.length - 1) rest (cursor.after lexeme.text) := by
  obtain ⟨before, parts, _, rfl⟩ := ahead
  have length := fronts.isPrefix.length_le
  have positive := List.length_pos_of_ne_nil fronts.nonempty
  rw [List.length_cons] at length
  refine ⟨before ++ [c], by simp [parts], by omega, ?_⟩
  have taken : lexeme.text = c :: rest.take (lexeme.text.length - 1) := by
    rw [← List.take_succ_cons, Nat.sub_add_cancel positive]
    exact List.prefix_iff_eq_take.1 fronts.isPrefix
  rw [List.append_assoc, List.singleton_append, ← taken, List.take_zero, List.append_nil,
    Cursor.after_append]

end Cursor.Ahead

namespace Token

theorem placed_endOfInput {source : String} {cursor : Cursor} {skip : Nat}
    (ahead : cursor.Ahead source skip []) : (endOfInput cursor).Placed source := by
  obtain ⟨before, parts, _, rfl⟩ := ahead
  refine ⟨before, [], by simpa [endOfInput] using parts, ?_⟩
  simp [endOfInput]

theorem placed_of_fronts {source : String} {cursor : Cursor} {text : List Char} {lexeme : Lexeme}
    (ahead : cursor.Ahead source 0 text) (fronts : lexeme.Fronts text) {token : Token}
    (member : token ∈ lexeme.token? cursor (cursor.after lexeme.text)) : token.Placed source := by
  obtain ⟨before, parts, _, rfl⟩ := ahead
  obtain ⟨after, rfl⟩ := fronts.isPrefix
  obtain ⟨kind, _, rfl⟩ := Option.map_eq_some_iff.1 member
  refine ⟨before, after, by simpa using parts, ?_⟩
  simp

theorem invariant_placed (source : String) :
    Invariant (fun cursor skip text => cursor.Ahead source skip text) (Placed source) where
  ends := placed_endOfInput
  skips := .skip
  reads ahead scanned := by
    have fronts := Lexeme.fronts_scan scanned
    exact ⟨ahead.next fronts, fun _ => placed_of_fronts ahead fronts⟩

end Token

theorem Token.utf8Len_go_unescape {escaped : Bool} {body : List Char}
    (literal : LiteralBody escaped body) (done : List Char) :
    String.utf8Len (unescape.go done body) + (if escaped then 1 else 0) ≤
      String.utf8Len done + String.utf8Len body := by
  induction literal generalizing done with
  | nil => simp [unescape.go]
  | @plain escaped c body _ notSlash _ _ induction =>
      have rest := induction (c :: done)
      rw [unescape.go]
      · rw [String.utf8Len_cons] at rest ⊢
        omega
      all_goals simp_all
  | @escape escaped c body escapable _ induction =>
      have rest := induction (unescape.resolve c :: done)
      have size : (unescape.resolve c).utf8Size = c.utf8Size := by
        simp only [Lexeme.isEscapable, Bool.or_eq_true, beq_iff_eq] at escapable
        rcases escapable with (((rfl | rfl) | rfl) | rfl) | rfl <;> decide
      have slash : '\\'.utf8Size = 1 := by decide
      rw [unescape.go]
      simp only [String.utf8Len_cons, size, slash, if_true] at rest ⊢
      omega

namespace Checked

structure Faithful (source : String) (token : Token) : Prop where
  text : cut source token.span = .ok token.text
  string : ∀ escaped, token.kind = .string escaped →
    stringOf source escaped token = .ok token.stringValue

theorem Faithful.textOf {source : String} {token : Token} (faithful : Faithful source token)
    {kind : Token.Kind} (isKind : token.kind = kind) :
    textOf source kind token = .ok token.text := by
  rw [Checked.textOf, require_of isKind, ok_bind, faithful.text]

theorem unescape_of_literalBody {body : List Char} (literal : Token.LiteralBody true body) :
    unescape (String.ofList body) = .ok (String.ofList (Token.unescape body)) := by
  have shorter := Token.utf8Len_go_unescape literal []
  rw [unescape, String.toList_ofList, require_of]
  · rfl
  · rw [String.utf8ByteSize_ofList, String.utf8ByteSize_ofList]
    rw [if_pos rfl, String.utf8Len_nil, Nat.zero_add] at shorter
    exact shorter

/-- The value of a literal is taken from between its quotes. -/
theorem stringOf_literal {source : String} {before body after : List Char} {escaped : Bool}
    (parts : source.toList = before ++ ('"' :: body ++ ['"'] ++ after))
    (fits : source.utf8ByteSize ≤ maxSourceBytes) (literal : Token.LiteralBody escaped body)
    (pos : Position) :
    stringOf source escaped ⟨.string escaped, String.ofList ('"' :: body ++ ['"']),
        .ofBounds (Cursor.start.after before).offset
          (Cursor.start.after (before ++ ('"' :: body ++ ['"']))).offset, pos⟩ =
      .ok (if escaped then String.ofList (Token.unescape body) else String.ofList body) := by
  have quote : '"'.utf8Size = 1 := by decide
  have size : String.utf8Len ('"' :: body ++ ['"']) = String.utf8Len body + 2 := by simp [quote]
  have front : String.utf8Len (before ++ ('"' :: body ++ ['"'])) ≤ maxSourceBytes := by
    rw [← String.utf8Len_toList, parts, ← List.append_assoc, String.utf8Len_append] at fits
    exact (Nat.le_add_right _ _).trans fits
  have inside : inner (.ofBounds (Cursor.start.after before).offset
      (Cursor.start.after (before ++ ('"' :: body ++ ['"']))).offset) =
      .ok (.ofBounds (Cursor.start.after (before ++ ['"'])).offset
        (Cursor.start.after (before ++ ['"'] ++ body)).offset) := by
    rw [Span.ofBounds_after front, size, inner_of_le, Span.ofBounds_after]
    · simp [quote]
    · simp [quote] at front ⊢
      omega
    · rwa [String.utf8Len_append, size] at front
  have taken : cut source (.ofBounds (Cursor.start.after (before ++ ['"'])).offset
      (Cursor.start.after (before ++ ['"'] ++ body)).offset) = .ok (String.ofList body) := by
    have split : source.toList = before ++ ['"'] ++ (body ++ '"' :: after) := by simp [parts]
    exact cut_after split fits
  rw [stringOf, require_of rfl, ok_bind, inside, ok_bind, taken, ok_bind]
  cases escaped with
  | true => exact unescape_of_literalBody literal
  | false => rfl

theorem faithful_of_placed {source : String} {token : Token}
    (fits : source.utf8ByteSize ≤ maxSourceBytes) (placed : token.Placed source)
    (spelled : ∀ escaped, token.kind = .string escaped →
      Token.Spells token.kind token.text.toList) : Faithful source token := by
  obtain ⟨kind, text, span, pos⟩ := token
  obtain ⟨before, after, parts, bounds⟩ := placed
  dsimp only at parts bounds
  subst bounds
  constructor
  · exact (cut_after parts fits).trans (by rw [String.ofList_toList])
  · rintro escaped rfl
    obtain ⟨body, literal, isText⟩ := (spelled escaped rfl).literalBody
    obtain rfl : text = String.ofList ('"' :: body ++ ['"']) := by
      rw [← isText, String.ofList_toList]
    simp only [String.toList_ofList] at parts ⊢
    rw [stringOf_literal parts fits literal pos, Token.stringValue]
    cases escaped <;> simp

theorem faithful_of_lex {source : String} {tokens : List Token}
    (fits : source.utf8ByteSize ≤ maxSourceBytes) (lexed : Token.lex source = .ok tokens) :
    ∀ token ∈ tokens, Faithful source token := by
  intro token member
  apply faithful_of_placed fits
  · exact (Token.invariant_placed source).forall_of_lex lexed (.start source) token member
  · intro escaped isString
    exact Token.spelled_of_lex lexed token member (by simp [isString])

/-! The checked lexer compared with the plain one. -/

section

variable {before text : List Char}

theorem skipFrom_eq (fits : String.utf8Len (before ++ text) ≤ maxSourceBytes)
    (test : Char → Bool) :
    Reader.skipFrom test (Cursor.start.after before) text =
      .ok ⟨text.dropWhile test, Cursor.start.after (before ++ text.takeWhile test)⟩ := by
  induction text generalizing before with
  | nil => simp [Reader.skipFrom]
  | cons c text induction =>
      rw [Reader.skipFrom]
      cases passes : test c with
      | false => simp [passes]
      | true =>
          have rest := @induction (before ++ [c]) (by simpa using fits)
          simp only [nextCursor_after fits, ok_bind, if_true, rest]
          simp [passes]

/-- What a reader has to find where `text` starts at a place, by what stands at its front. -/
def foundOf (cursor : Cursor) (text : List Char) : Except LexFault Lexeme → Found
  | .error fault => .error ⟨(cursor.after fault.before).pos, fault.error⟩
  | .ok lexeme => .ok (lexeme.kind, ⟨text.drop lexeme.text.length, cursor.after lexeme.text⟩)

section

variable {start : Position} {escaped : Bool} {cursor next : Cursor} {c : Char} {rest : List Char}

theorem string_break (escaping : Bool) (moved : nextCursor cursor '\n' = .ok next) :
    string start escaped escaping cursor ('\n' :: rest) =
      .ok (.error ⟨cursor.pos, .lineBreakInString⟩) := by
  rw [string, moved]
  cases escaping <;> rfl

theorem string_slash (moved : nextCursor cursor '\\' = .ok next) :
    string start escaped false cursor ('\\' :: rest) = string start true true next rest := by
  rw [string, moved]
  rfl

theorem string_escape (moved : nextCursor cursor c = .ok next) (notBreak : c ≠ '\n') :
    string start escaped true cursor (c :: rest) =
      if Lexeme.isEscapable c then string start escaped false next rest
      else .ok (.error ⟨cursor.pos, .invalidEscape c⟩) := by
  rw [string, moved]
  simp [notBreak]

theorem string_plain (moved : nextCursor cursor c = .ok next) (notQuote : c ≠ '"')
    (notBreak : c ≠ '\n') (notSlash : c ≠ '\\') :
    string start escaped false cursor (c :: rest) = string start escaped false next rest := by
  rw [string, moved]
  simp [notQuote, notBreak, notSlash]

end

theorem string_eq {read : List Char} (escaped : Bool)
    (fits : String.utf8Len (before ++ (read.reverse ++ text)) ≤ maxSourceBytes) :
    string (Cursor.start.after before).pos escaped false
        (Cursor.start.after (before ++ read.reverse)) text =
      .ok (foundOf (Cursor.start.after before) (read.reverse ++ text)
        (Lexeme.scanString escaped read text)) := by
  have step {c : Char} {read rest : List Char}
      (fits : String.utf8Len (before ++ (read.reverse ++ c :: rest)) ≤ maxSourceBytes) :
      nextCursor (Cursor.start.after (before ++ read.reverse)) c =
        .ok (Cursor.start.after (before ++ (c :: read).reverse)) := by
    rw [← List.append_assoc] at fits
    rw [nextCursor_after fits, List.reverse_cons, List.append_assoc]
  fun_induction Lexeme.scanString escaped read text with
  | case1 escaped read => rfl
  | case2 escaped read rest =>
      have whole : read.reverse ++ '"' :: rest = ('"' :: read).reverse ++ rest := by simp
      rw [string, step fits, whole, foundOf, List.drop_left, Cursor.after_append]
      rfl
  | case3 escaped read rest =>
      rw [string_break _ (step fits), foundOf, Cursor.after_append]
  | case4 escaped read =>
      rw [string_slash (step fits)]
      rfl
  | case5 escaped read rest =>
      have second := @step '\n' ('\\' :: read) rest (by simpa using fits)
      rw [string_slash (step fits), string_break _ second, foundOf, Cursor.after_append]
  | case6 escaped read c rest notBreak escapable induction =>
      have second := @step c ('\\' :: read) rest (by simpa using fits)
      rw [string_slash (step fits), string_escape second notBreak, if_pos escapable,
        induction (by simpa using fits)]
      simp
  | case7 escaped read c rest notBreak invalid =>
      have second := @step c ('\\' :: read) rest (by simpa using fits)
      rw [string_slash (step fits), string_escape second notBreak, if_neg invalid, foundOf,
        Cursor.after_append]
  | case8 escaped read c rest notQuote notBreak notLast _ notEscape induction =>
      have notSlash : c ≠ '\\' := by
        rintro rfl
        cases rest with
        | nil => exact notLast rfl rfl
        | cons next rest => exact notEscape next rest rfl rfl
      rw [string_plain (step fits) notQuote notBreak notSlash, induction (by simpa using fits)]
      simp

theorem startsFraction_eq (reader : Reader) :
    startsFraction reader = Lexeme.startsFraction reader.rest := by
  obtain ⟨rest, cursor⟩ := reader
  cases rest with
  | nil => rfl
  | cons c rest =>
      cases rest with
      | nil =>
          have ended : '\x00'.isDigit = false := by decide
          simp [startsFraction, Reader.peekSecond, Lexeme.startsFraction, ended]
      | cons d rest => exact (Lexeme.startsFraction_cons_cons c d rest).symm

/-- What a lexeme leaves of a text, when the text is split behind it. -/
theorem foundOf_ok {cursor : Cursor} {kind : Option Token.Kind} {front rest : List Char}
    (split : text = front ++ rest) :
    foundOf cursor text (.ok ⟨kind, front⟩) = .ok (kind, ⟨rest, cursor.after front⟩) := by
  rw [split, foundOf, List.drop_left]

theorem number_eq {c : Char} {rest : List Char} (isDigit : c.isDigit = true)
    (fits : String.utf8Len (before ++ c :: rest) ≤ maxSourceBytes) :
    number ⟨rest, Cursor.start.after (before ++ [c])⟩ =
      .ok (foundOf (Cursor.start.after before) (c :: rest) (Lexeme.scanNumber (c :: rest))) := by
  have first : Reader.skipFrom Char.isDigit (Cursor.start.after (before ++ [c])) rest = _ :=
    skipFrom_eq (by simpa using fits) Char.isDigit
  have split : rest.takeWhile Char.isDigit ++ rest.dropWhile Char.isDigit = rest :=
    List.takeWhile_append_dropWhile
  rw [number, Reader.skipWhile, first, ok_bind, startsFraction_eq, Lexeme.scanNumber,
    List.takeWhile_cons_of_pos isDigit, List.dropWhile_cons_of_pos isDigit]
  generalize rest.takeWhile Char.isDigit = whole at split ⊢
  generalize rest.dropWhile Char.isDigit = behind at split ⊢
  subst split
  cases starts : Lexeme.startsFraction behind with
  | false =>
      rw [if_neg (by simp), if_neg (by simp), foundOf_ok (List.cons_append).symm]
      simp
  | true =>
      obtain ⟨d, more, rfl, _⟩ := Lexeme.eq_of_startsFraction starts
      have point : nextCursor (Cursor.start.after (before ++ [c] ++ whole)) '.' = _ :=
        @nextCursor_after _ (d :: more) _ (by simpa using fits)
      have second : Reader.skipFrom Char.isDigit
          (Cursor.start.after (before ++ [c] ++ whole ++ ['.'])) (d :: more) = _ :=
        skipFrom_eq (by simpa using fits) Char.isDigit
      have split : (d :: more).takeWhile Char.isDigit ++ (d :: more).dropWhile Char.isDigit =
          d :: more := List.takeWhile_append_dropWhile
      rw [if_pos rfl, if_pos rfl, Reader.advance, point, ok_bind, pure_eq_ok, ok_bind,
        Reader.skipWhile, second, ok_bind, startsFraction_eq, List.tail_cons]
      generalize (d :: more).takeWhile Char.isDigit = fraction at split ⊢
      generalize (d :: more).dropWhile Char.isDigit = behind at split ⊢
      rw [← split]
      cases Lexeme.startsFraction behind with
      | false =>
          have parts : c :: (whole ++ '.' :: (fraction ++ behind)) =
              (c :: whole ++ '.' :: fraction) ++ behind := by simp
          rw [if_neg (by simp), if_neg (by simp), foundOf_ok parts]
          simp
      | true =>
          rw [if_pos rfl, if_pos rfl, foundOf]
          simp

theorem utf8Size_of_isPunctuation {c : Char} (punctuation : isPunctuation c = true) :
    c.utf8Size ≤ 1 := by
  apply Nat.le_of_eq
  apply Char.utf8Size_eq_one_iff.2
  rw [UInt32.le_iff_toNat_le]
  change c.toNat ≤ 127
  simp only [isPunctuation, Bool.or_eq_true, Bool.and_eq_true, decide_eq_true_eq] at punctuation
  omega

theorem isPunctuation_of_ofPair? {first second : Char} {symbol : Symbol}
    (found : Symbol.ofPair? first second = some symbol) :
    (isPunctuation first && isPunctuation second) = true := by
  unfold Symbol.ofPair? at found
  split at found
  all_goals first | decide | cases found

theorem pair?_eq (first second : Char) : pair? first second = .ok (Symbol.ofPair? first second) := by
  rw [pair?]
  cases punctuation : isPunctuation first && isPunctuation second with
  | true =>
      obtain ⟨narrow, narrowSecond⟩ := Bool.and_eq_true_iff.1 punctuation
      rw [if_pos rfl, require_of (utf8Size_of_isPunctuation narrow),
        require_of (utf8Size_of_isPunctuation narrowSecond)]
      rfl
  | false =>
      cases found : Symbol.ofPair? first second with
      | none => rfl
      | some symbol =>
          rw [isPunctuation_of_ofPair? found] at punctuation
          cases punctuation

theorem scan_eq {source : String} {c : Char} {rest : List Char}
    (parts : source.toList = before ++ c :: rest) (fits : source.utf8ByteSize ≤ maxSourceBytes) :
    scan source (Cursor.start.after before) c ⟨rest, Cursor.start.after (before ++ [c])⟩ =
      .ok (foundOf (Cursor.start.after before) (c :: rest) (Lexeme.scan c rest)) := by
  have small : String.utf8Len (before ++ c :: rest) ≤ maxSourceBytes := by
    rwa [← parts, String.utf8Len_toList]
  -- Words, blanks and comments go on as long as their characters do.
  have skipped (test : Char → Bool) : Reader.skipWhile test
      ⟨rest, Cursor.start.after (before ++ [c])⟩ = .ok ⟨rest.dropWhile test,
        Cursor.start.after (before ++ c :: rest.takeWhile test)⟩ := by
    have found : Reader.skipFrom test (Cursor.start.after (before ++ [c])) rest = _ :=
      skipFrom_eq (by simpa using small) test
    rw [Reader.skipWhile, found, List.append_assoc, List.singleton_append]
  have behind (test : Char → Bool) : c :: rest = c :: rest.takeWhile test ++ rest.dropWhile test := by
    rw [List.cons_append, List.takeWhile_append_dropWhile]
  have paired : pair? c (Reader.peek ⟨rest, Cursor.start.after (before ++ [c])⟩) =
      .ok (rest.head?.bind (Symbol.ofPair? c)) := by
    rw [pair?_eq]
    cases rest with
    | nil => simp [Reader.peek, Symbol.ofPair?]
    | cons d rest => rfl
  rw [scan, paired, ok_bind, Lexeme.scan, Lexeme.symbol?]
  cases pair : rest.head?.bind (Symbol.ofPair? c) with
  | some symbol =>
      obtain ⟨d, isHead, _⟩ := Option.bind_eq_some_iff.1 pair
      obtain ⟨more, rfl⟩ := List.head?_eq_some_iff.1 isHead
      have second : nextCursor (Cursor.start.after (before ++ [c])) d = _ :=
        @nextCursor_after _ more _ (by simpa using small)
      dsimp only
      rw [Reader.advance, second]
      simp [foundOf]
  | none =>
      cases single : Symbol.ofChar? c with
      | some symbol => simp [foundOf]
      | none =>
          simp only [Option.map_none]
          split_ifs with isComment isQuote isWord isDigit isBlank
          · rw [skipped, ok_bind, foundOf_ok (behind _), Cursor.after_append]
            rfl
          · have whole : String.utf8Len (before ++ ([c].reverse ++ rest)) ≤ maxSourceBytes := by
              simpa using small
            exact string_eq false whole
          · have taken := cut_after (parts.trans (congrArg _ (behind Lexeme.isWordChar))) fits
            rw [word, skipped, ok_bind, spanOf_after, ok_bind, taken, ok_bind,
              foundOf_ok (behind _), Cursor.after_append]
            rfl
          · exact number_eq isDigit small
          · rw [skipped, ok_bind, foundOf_ok (behind _), Cursor.after_append]
            rfl
          · rfl

end

theorem produce_eq {before front behind : List Char} (kind : Token.Kind) :
    produce (front ++ behind) (Cursor.start.after before)
        ⟨behind, Cursor.start.after (before ++ front)⟩ kind =
      .ok ⟨kind, String.ofList front, .ofBounds (Cursor.start.after before).offset
        (Cursor.start.after (before ++ front)).offset, (Cursor.start.after before).pos⟩ := by
  have taken : (front ++ behind).take ((front ++ behind).length - behind.length) = front := by
    rw [List.length_append, Nat.add_sub_cancel, List.take_left]
  rw [produce, spanOf_after, ok_bind, taken]
  rfl

/-- The reader passes the same lexemes, each checked where it starts and where it ends. -/
theorem lexFrom_eq {source : String} (fits : source.utf8ByteSize ≤ maxSourceBytes)
    (tokens : List Token) {cursor : Cursor} {skip : Nat} {text : List Char}
    (ahead : cursor.Ahead source skip text) :
    lexFrom source tokens cursor skip text = .ok (Token.lexFrom tokens cursor skip text) := by
  have moved {before rest : List Char} {c : Char} (parts : source.toList = before ++ c :: rest) :
      nextCursor (Cursor.start.after before) c = .ok (Cursor.start.after (before ++ [c])) := by
    have whole : String.utf8Len (before ++ c :: rest) ≤ maxSourceBytes := by
      rwa [← parts, String.utf8Len_toList]
    exact nextCursor_after whole
  fun_induction Token.lexFrom tokens cursor skip text with
  | case1 tokens cursor skip =>
      rw [lexFrom, produce, spanOf, require_of (Nat.le_refl _)]
      rfl
  | case2 tokens cursor skip c rest induction => exact induction ahead.skip
  | case3 tokens cursor c rest fault scanned =>
      obtain ⟨before, parts, _, rfl⟩ := ahead
      rw [List.take_zero, List.append_nil, lexFrom, moved parts, ok_bind, scan_eq parts fits,
        ok_bind, scanned]
      rfl
  | case4 tokens cursor c rest lexeme scanned after induction =>
      have fronts := Lexeme.fronts_scan scanned
      have remaining := induction (ahead.next fronts)
      have isAfter : after = cursor.after lexeme.text := rfl
      clear_value after
      subst isAfter
      obtain ⟨before, parts, _, rfl⟩ := ahead
      obtain ⟨kind, front⟩ := lexeme
      obtain ⟨behind, split⟩ := fronts.isPrefix
      dsimp only at split
      have count : rest.length - behind.length = front.length - 1 := by
        have lengths := congrArg List.length split
        rw [List.length_append, List.length_cons] at lengths
        omega
      have produced : kind.toList.mapM (produce (c :: rest) (Cursor.start.after before)
          ⟨behind, (Cursor.start.after before).after front⟩) =
          .ok (Lexeme.token? ⟨kind, front⟩ (Cursor.start.after before)
            ((Cursor.start.after before).after front)).toList := by
        cases kind with
        | none => rfl
        | some kind =>
            have token := @produce_eq before front behind kind
            rw [split, Cursor.after_append] at token
            simp [token, Lexeme.token?]
      rw [List.take_zero, List.append_nil] at remaining ⊢
      rw [lexFrom, moved parts, ok_bind, scan_eq parts fits, ok_bind, scanned,
        foundOf_ok split.symm]
      dsimp only
      rw [produced, ok_bind, count]
      exact remaining

theorem lex_eq {source : String} (fits : source.utf8ByteSize ≤ maxSourceBytes) :
    lex source [] = .ok (Token.lex source) := by
  rw [lex, require_of rfl, ok_bind, lexFrom_eq fits [] (.start source)]
  rfl

end Checked

end Covenant
