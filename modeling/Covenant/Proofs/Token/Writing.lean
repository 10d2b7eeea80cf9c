import Covenant.Proofs.Token.Lines
import Covenant.Token.Shape
import Covenant.Token.Spelling
import Mathlib

/-! Texts of tokens are lexed to these tokens, whatever blank text stands between them, and all tokens
that are ever read have such texts. -/

namespace Covenant

namespace Symbol

theorem spelling_of_ofChar? {c : Char} {symbol : Symbol} (found : ofChar? c = some symbol) :
    symbol.spelling.toList = [c] := by
  unfold ofChar? at found
  split at found <;> cases found <;> rfl

theorem spelling_of_ofPair? {c d : Char} {symbol : Symbol} (found : ofPair? c d = some symbol) :
    symbol.spelling.toList = [c, d] := by
  unfold ofPair? at found
  split at found <;> cases found <;> rfl

theorem ofChar?_eq_none_of_isWordStart {c : Char} (starts : Lexeme.isWordStart c = true) :
    ofChar? c = none := by
  unfold ofChar?
  split
  all_goals first | rfl | cases starts

theorem ofChar?_eq_none_of_isDigit {c : Char} (isDigit : c.isDigit = true) : ofChar? c = none := by
  unfold ofChar?
  split
  all_goals first | rfl | cases isDigit

end Symbol

namespace Lexeme

open Token (LiteralBody Spells)

theorem isWordStart_of_isDigit {c : Char} (isDigit : c.isDigit = true) : isWordStart c = false := by
  have point : '_'.val.toNat = 95 := rfl
  rw [Bool.eq_false_iff]
  intro starts
  simp only [isWordStart, Char.isAlpha, Char.isUpper, Char.isLower, Char.isDigit, Bool.or_eq_true,
    Bool.and_eq_true, decide_eq_true_eq, beq_iff_eq, UInt32.le_iff_toNat_le, ge_iff_le]
    at starts isDigit
  obtain ⟨_, high⟩ := isDigit
  rcases starts with (⟨low, _⟩ | ⟨low, _⟩) | rfl
  · exact absurd (Nat.le_trans low high) (by decide)
  · exact absurd (Nat.le_trans low high) (by decide)
  · exact absurd high (by decide)

/-! Reading a text of one token. -/

theorem scanString_of_literalBody {escaped : Bool} {body : List Char}
    (literal : LiteralBody escaped body) (before : Bool) (read : List Char) :
    scanString before read (body ++ ['"']) =
      .ok ⟨some (.string (before || escaped)), read.reverse ++ (body ++ ['"'])⟩ := by
  induction literal generalizing before read with
  | nil => simp [scanString]
  | plain notQuote notSlash notLine _ induction =>
      rw [List.cons_append, scanString]
      · simp [induction]
      all_goals simp_all
  | @escape _ c _ isEscapable _ induction =>
      have notLine : c ≠ '\n' := by
        rintro rfl
        cases isEscapable
      rw [List.cons_append, List.cons_append, scanString, if_pos isEscapable, induction]
      · simp
      · exact notLine

theorem scanNumber_integer {digits : List Char} (all : ∀ d ∈ digits, d.isDigit) :
    scanNumber digits = .ok ⟨some .number, digits⟩ := by
  have none : digits.dropWhile Char.isDigit = [] := List.dropWhile_eq_nil_iff.2 all
  simp [scanNumber, none, startsFraction, List.takeWhile_eq_self_iff.2 all]

theorem scanNumber_decimal {whole fraction : List Char} (all : ∀ d ∈ whole, d.isDigit)
    (nonempty : fraction ≠ []) (allToo : ∀ d ∈ fraction, d.isDigit) :
    scanNumber (whole ++ '.' :: fraction) = .ok ⟨some .number, whole ++ '.' :: fraction⟩ := by
  have point : Char.isDigit '.' = false := by decide
  have none : fraction.dropWhile Char.isDigit = [] := List.dropWhile_eq_nil_iff.2 allToo
  have ended : startsFraction [] = false := rfl
  have starts : startsFraction ('.' :: fraction) = true := by
    cases fraction with
    | nil => exact (nonempty rfl).elim
    | cons d fraction => exact allToo d (by simp)
  simp only [scanNumber, takeWhile_append_cons point, dropWhile_append_cons point,
    List.takeWhile_eq_self_iff.2 all, List.dropWhile_eq_nil_iff.2 all, List.nil_append, starts,
    List.tail_cons, none, List.takeWhile_eq_self_iff.2 allToo, ended, if_true, Bool.false_eq_true,
    if_false]

theorem scan_digit {c : Char} {rest : List Char} (isDigit : c.isDigit = true) :
    scan c rest = scanNumber (c :: rest) := by
  have notComment : c ≠ '#' := by
    rintro rfl
    cases isDigit
  have notQuote : c ≠ '"' := by
    rintro rfl
    cases isDigit
  rw [scan, symbol?_eq_none (Symbol.ofChar?_eq_none_of_isDigit isDigit)]
  simp only [if_neg notComment, if_neg notQuote, isWordStart_of_isDigit isDigit,
    Bool.false_eq_true, if_false, if_pos isDigit]

theorem scan_of_spells {kind : Token.Kind} {c : Char} {rest : List Char}
    (spells : Spells kind (c :: rest)) : scan c rest = .ok ⟨some kind, c :: rest⟩ := by
  generalize isText : c :: rest = text at spells
  cases spells with
  | @word first others starts all =>
      obtain ⟨rfl, rfl⟩ := List.cons.inj isText
      have notComment : c ≠ '#' := by
        rintro rfl
        cases starts
      have notQuote : c ≠ '"' := by
        rintro rfl
        cases starts
      rw [scan, symbol?_eq_none (Symbol.ofChar?_eq_none_of_isWordStart starts)]
      simp only [if_neg notComment, if_neg notQuote, if_pos starts,
        List.takeWhile_eq_self_iff.2 all]
  | symbol sign =>
      cases sign <;> cases isText <;> rfl
  | integer _ all =>
      rw [← isText] at all
      rw [scan_digit (all c (by simp)), scanNumber_integer all, isText]
  | @decimal whole fraction nonempty all some allToo =>
      cases whole with
      | nil => exact (nonempty rfl).elim
      | cons first others =>
          obtain ⟨rfl, rfl⟩ := List.cons.inj isText
          exact (scan_digit (all c (by simp))).trans (scanNumber_decimal all some allToo)
  | @literal escaped body isBody =>
      obtain ⟨rfl, rfl⟩ := List.cons.inj isText
      rw [scan, symbol?_eq_none rfl]
      exact scanString_of_literalBody isBody false ['"']

/-! Every token that is read has such a text. -/

theorem eq_of_symbol? {c : Char} {rest : List Char} {lexeme : Lexeme}
    (found : symbol? c rest = some lexeme) :
    ∃ sign : Symbol, lexeme = ⟨some (.symbol sign), sign.spelling.toList⟩ := by
  rw [symbol?] at found
  split at found
  · next sign isPair =>
      cases found
      refine ⟨sign, ?_⟩
      cases rest with
      | nil => cases isPair
      | cons d rest => rw [Symbol.spelling_of_ofPair? isPair]; rfl
  · obtain ⟨sign, isChar, rfl⟩ := Option.map_eq_some_iff.1 found
    exact ⟨sign, by rw [Symbol.spelling_of_ofChar? isChar]⟩

theorem literalBody_of_scanString {escaped : Bool} {read text : List Char} {lexeme : Lexeme}
    (scanned : scanString escaped read text = .ok lexeme) :
    ∃ escapes body, LiteralBody escapes body ∧
      lexeme = ⟨some (.string (escaped || escapes)), read.reverse ++ (body ++ ['"'])⟩ := by
  fun_induction scanString escaped read text with
  | case1 | case3 | case4 | case5 | case7 => cases scanned
  | case2 escaped read rest =>
      cases scanned
      exact ⟨false, [], .nil, by simp⟩
  | case6 escaped read c rest _ isEscapable induction =>
      obtain ⟨escapes, body, isBody, rfl⟩ := induction scanned
      exact ⟨true, _, .escape isEscapable isBody, by simp⟩
  | case8 escaped read c rest notQuote notLine notLast _ notEscape induction =>
      have notSlash : c ≠ '\\' := by
        intro isSlash
        cases rest with
        | nil => exact notLast isSlash rfl
        | cons d rest => exact notEscape d rest isSlash rfl
      obtain ⟨escapes, body, isBody, rfl⟩ := induction scanned
      exact ⟨escapes, _, .plain notQuote notSlash notLine isBody, by simp⟩

theorem spells_of_scanNumber {c : Char} {rest : List Char} {lexeme : Lexeme}
    (isDigit : c.isDigit = true) (scanned : scanNumber (c :: rest) = .ok lexeme) :
    ∃ digits, lexeme = ⟨some .number, digits⟩ ∧ Spells .number digits := by
  have whole : (c :: rest).takeWhile Char.isDigit ≠ [] := by simp [isDigit]
  have digits (text : List Char) : ∀ d ∈ text.takeWhile Char.isDigit, d.isDigit := fun _ member =>
    List.mem_takeWhile_imp member
  rw [scanNumber] at scanned
  split at scanned
  · next starts =>
      split at scanned
      · cases scanned
      · cases scanned
        obtain ⟨d, others, fraction, isFraction⟩ := eq_of_startsFraction starts
        refine ⟨_, rfl, .decimal whole (digits _) ?_ (digits _)⟩
        simp [fraction, isFraction]
  · cases scanned
    exact ⟨_, rfl, .integer whole (digits _)⟩

theorem ink_of_scan {c : Char} {rest : List Char} {kind : Token.Kind} {text : List Char}
    (scanned : scan c rest = .ok ⟨some kind, text⟩) : Text.isBlank c = false := by
  rw [Bool.eq_false_iff]
  intro blank
  rw [scan_blank blank] at scanned
  cases scanned

theorem spells_of_scan {c : Char} {rest : List Char} {kind : Token.Kind} {text : List Char}
    (scanned : scan c rest = .ok ⟨some kind, text⟩) : Spells kind text := by
  rw [scan] at scanned
  split at scanned
  · next found =>
      obtain ⟨sign, rfl⟩ := eq_of_symbol? found
      cases scanned
      exact .symbol sign
  · split at scanned
    · cases scanned
    split at scanned
    · next isQuote =>
        obtain ⟨escapes, body, isBody, same⟩ := literalBody_of_scanString scanned
        cases same
        rw [isQuote]
        exact .literal isBody
    split at scanned
    · next starts =>
        cases scanned
        exact .word starts fun _ member => List.mem_takeWhile_imp member
    split at scanned
    · next isDigit =>
        obtain ⟨digits, same, spells⟩ := spells_of_scanNumber isDigit scanned
        cases same
        exact spells
    split at scanned <;> cases scanned

end Lexeme

namespace Token

namespace Shape

def Spelled (shape : Shape) : Prop :=
  Spells shape.kind shape.text.toList

/-- Shapes of tokens, so that they can be written out and read again. -/
def Writable (shapes : List Shape) : Prop :=
  ∀ shape ∈ shapes, shape.Spelled

theorem Writable.of_subset {shapes others : List Shape} (writable : Writable shapes)
    (within : others ⊆ shapes) : Writable others :=
  fun shape isShape => writable shape (within isShape)

@[simp] theorem writable_nil : Writable [] := by
  simp [Writable]

@[simp] theorem writable_cons {shape : Shape} {shapes : List Shape} :
    Writable (shape :: shapes) ↔ shape.Spelled ∧ Writable shapes :=
  List.forall_mem_cons

@[simp] theorem writable_append {shapes others : List Shape} :
    Writable (shapes ++ others) ↔ Writable shapes ∧ Writable others :=
  List.forall_mem_append

@[simp] theorem writable_flatMap {α : Type} {items : List α} {shapes : α → List Shape} :
    Writable (items.flatMap shapes) ↔ ∀ item ∈ items, Writable (shapes item) := by
  simp only [Writable, List.mem_flatMap, forall_exists_index, and_imp]
  exact ⟨fun all item isItem shape isShape => all shape item isItem isShape,
    fun all shape item isItem isShape => all item isItem shape isShape⟩

end Shape

theorem Spells.ne_nil {kind : Kind} {text : List Char} (spells : Spells kind text) : text ≠ [] := by
  cases spells with
  | word | literal => simp
  | symbol sign => cases sign <;> simp [Symbol.spelling]
  | integer nonempty => exact nonempty
  | decimal => simp

theorem Spells.literalBody {escaped : Bool} {text : List Char}
    (spells : Spells (.string escaped) text) :
    ∃ body, LiteralBody escaped body ∧ text = '"' :: body ++ ['"'] := by
  generalize isString : Kind.string escaped = kind at spells
  cases spells with
  | @word c rest =>
      have other : Kind.ofWord (String.ofList (c :: rest)) ≠ .string escaped :=
        Kind.ofWord_ne _ (by simp) (by cases escaped <;> decide)
      exact (other isString.symm).elim
  | literal body =>
      cases isString
      exact ⟨_, body, rfl⟩
  | symbol | integer | decimal => cases isString

theorem invariant_spelled :
    Invariant (fun _ _ _ => True) fun token => token.kind ≠ .eof → token.shape.Spelled where
  ends _ going := (going rfl).elim
  skips _ := trivial
  reads := by
    rintro cursor c rest ⟨kind, text⟩ - scanned
    refine ⟨trivial, fun token member _ => ?_⟩
    obtain ⟨kind, rfl, rfl⟩ := Option.map_eq_some_iff.1 member
    simpa [Shape.Spelled, shape] using Lexeme.spells_of_scan scanned

theorem spelled_of_lex {source : String} {tokens : List Token} (lexed : lex source = .ok tokens) :
    ∀ token ∈ tokens, token.kind ≠ .eof → token.shape.Spelled :=
  invariant_spelled.forall_of_lex lexed trivial

theorem shape_of_identifier {token : Token} (isName : token.kind = .identifier) :
    token.shape = .name token.text := by
  rw [shape, isName]
  rfl

theorem shape_of_number {token : Token} (isNumber : token.kind = .number) :
    token.shape = .number token.text := by
  rw [shape, isNumber]
  rfl

theorem writable_of_lex {source : String} {tokens : List Token} {last : Token}
    (lexed : lex source = .ok (tokens ++ [last])) : Shape.Writable (tokens.map Token.shape) := by
  obtain ⟨front, cursor, same, going⟩ := lex_eq_ok lexed
  obtain ⟨rfl, -⟩ := List.append_inj' same rfl
  intro shape member
  obtain ⟨token, isToken, rfl⟩ := List.mem_map.1 member
  exact spelled_of_lex lexed token (by simp [isToken]) (going token isToken)

/-! The shapes that printing uses. -/

namespace Shape

theorem spelled_of_ofWord {word : String} (starts : word.toList.head?.any Lexeme.isWordStart = true)
    (all : word.toList.all Lexeme.isWordChar = true) : Spelled ⟨.ofWord word, word⟩ := by
  rw [Spelled, ← String.ofList_toList (s := word)]
  cases isText : word.toList with
  | nil =>
      rw [isText] at starts
      cases starts
  | cons c rest =>
      rw [isText] at starts all
      rw [String.toList_ofList]
      exact .word starts fun d member => List.all_eq_true.1 all d (by simp [member])

@[simp] theorem spelled_word (keyword : Keyword) : (word keyword).Spelled := by
  have isKind : Kind.ofWord keyword.spelling = .keyword keyword := by
    cases keyword <;> decide
  rw [word, ← isKind]
  apply spelled_of_ofWord
  · cases keyword <;> decide
  · cases keyword <;> decide

theorem spelled_name {word : String} (isName : Token.Kind.ofWord word = .identifier)
    (starts : word.toList.head?.any Lexeme.isWordStart = true)
    (all : word.toList.all Lexeme.isWordChar = true) : (name word).Spelled := by
  rw [name, ← isName]
  exact spelled_of_ofWord starts all

@[simp] theorem spelled_sign (symbol : Symbol) : (sign symbol).Spelled :=
  .symbol symbol

theorem escapeLetter?_eq_some {c letter : Char} (found : escapeLetter? c = some letter) :
    Lexeme.isEscapable letter = true ∧ unescape.resolve letter = c := by
  unfold escapeLetter? at found
  split at found <;> cases found <;> decide

theorem literalBody_escape (body : List Char) :
    LiteralBody (body.any fun c => (escapeLetter? c).isSome) (body.flatMap escape) := by
  induction body with
  | nil => exact .nil
  | cons c body induction =>
      rw [List.any_cons, List.flatMap_cons, escape]
      cases found : escapeLetter? c with
      | some letter => exact .escape (escapeLetter?_eq_some found).1 induction
      | none =>
          refine .plain ?_ ?_ ?_ induction
          all_goals
            rintro rfl
            cases found

@[simp] theorem spelled_string (value : String) : (string value).Spelled := by
  rw [Spelled, string, String.toList_ofList]
  exact .literal (literalBody_escape value.toList)

theorem go_escape (body done : List Char) :
    unescape.go done (body.flatMap escape) = done.reverse ++ body := by
  induction body generalizing done with
  | nil => simp [unescape.go]
  | cons c body induction =>
      rw [List.flatMap_cons, escape]
      cases found : escapeLetter? c with
      | some letter =>
          have resolves := (escapeLetter?_eq_some found).2
          simp [unescape.go, induction, resolves]
      | none =>
          have notSlash : c ≠ '\\' := by
            rintro rfl
            cases found
          rw [List.singleton_append, unescape.go, induction]
          · simp
          all_goals simp_all

theorem forall_mem_commaSeparated {Holds : Shape → Prop} (comma : Holds (.sign .comma))
    {items : List (List Shape)} :
    (∀ shape ∈ commaSeparated items, Holds shape) ↔
      ∀ item ∈ items, ∀ shape ∈ item, Holds shape := by
  induction items with
  | nil => simp [commaSeparated]
  | cons item items induction =>
      rw [commaSeparated] at induction ⊢
      cases items with
      | nil => simp
      | cons next items =>
          rw [List.intercalate_cons_cons, List.forall_mem_append, List.forall_mem_append, induction,
            List.forall_mem_singleton, and_iff_left comma]
          exact (@List.forall_mem_cons _ (fun item => ∀ shape ∈ item, Holds shape) _ _).symm

theorem writable_commaSeparated {items : List (List Shape)} :
    Writable (commaSeparated items) ↔ ∀ item ∈ items, Writable item :=
  forall_mem_commaSeparated (spelled_sign .comma)

/-- A token of this shape. -/
def token (shape : Shape) : Token :=
  ⟨shape.kind, shape.text, .ofBounds 0 0, .start⟩

@[simp] theorem token_pos (shape : Shape) : shape.token.pos = .start := rfl

@[simp] theorem kind_word (keyword : Keyword) : (word keyword).token.kind = .keyword keyword := rfl

@[simp] theorem kind_sign (symbol : Symbol) : (sign symbol).token.kind = .symbol symbol := rfl

@[simp] theorem kind_name (text : String) : (name text).token.kind = .identifier := rfl

@[simp] theorem text_name (text : String) : (name text).token.text = text := rfl

theorem stringValue_token (value : String) : (string value).token.stringValue = value := by
  have body : ((string value).text.toList.drop 1).dropLast = value.toList.flatMap escape := by
    simp [string]
  rw [Token.stringValue, token, body]
  cases escaped : value.toList.any fun c => (escapeLetter? c).isSome with
  | true =>
      simp [string, escaped, unescape, go_escape]
  | false =>
      have same : value.toList.flatMap escape = value.toList.flatMap fun c => [c] := by
        refine List.flatMap_congr fun c member => ?_
        have none := List.any_eq_false.1 escaped c member
        rw [escape, Option.not_isSome_iff_eq_none.1 none]
      rw [same, List.flatMap_singleton']
      simp [string, escaped]

end Shape

/-! Writing shapes out. -/

/-- A token of this shape is all that is read from its text when `more` follows. -/
def Shape.EndsBefore (shape : Shape) (more : List Char) : Prop :=
  ∃ c rest, shape.text.toList = c :: rest ∧
    Lexeme.scan c (rest ++ more) = .ok ⟨some shape.kind, c :: rest⟩

namespace Shape

theorem Spelled.scan_eq {shape : Shape} (spelled : shape.Spelled) : ∃ c rest,
    shape.text.toList = c :: rest ∧ Lexeme.scan c rest = .ok ⟨some shape.kind, c :: rest⟩ := by
  obtain ⟨c, rest, isText⟩ := List.exists_cons_of_ne_nil spelled.ne_nil
  have spells : Spells shape.kind (c :: rest) := isText ▸ spelled
  exact ⟨c, rest, isText, Lexeme.scan_of_spells spells⟩

theorem Spelled.endsBefore {shape : Shape} (spelled : shape.Spelled) {more : List Char}
    (ends : ∀ stop ∈ more.head?, Lexeme.Separates stop) : shape.EndsBefore more := by
  obtain ⟨c, rest, isText, scanned⟩ := spelled.scan_eq
  refine ⟨c, rest, isText, ?_⟩
  cases more with
  | nil => rwa [List.append_nil]
  | cons stop more =>
      have ink := Lexeme.ink_of_scan scanned
      exact Lexeme.scan_append ink (ends stop rfl) scanned (.inl (by simp)) more

theorem endsBefore_sign {symbol : Symbol} {c : Char} (isChar : Symbol.ofChar? c = some symbol)
    (alone : ∀ d, Symbol.ofPair? c d = none) (more : List Char) :
    (sign symbol).EndsBefore more := by
  refine ⟨c, [], Symbol.spelling_of_ofChar? isChar, ?_⟩
  have noPair : more.head?.bind (Symbol.ofPair? c) = none := by
    cases more with
    | nil => rfl
    | cons d more => exact alone d
  have found : Lexeme.symbol? c more = some ⟨some (.symbol symbol), [c]⟩ := by
    rw [Lexeme.symbol?, noPair, isChar]
    rfl
  rw [List.nil_append, Lexeme.scan, found]
  rfl

end Shape

/-- A text of tokens in which blank text stands wherever two of them would run together, and perhaps
elsewhere. -/
inductive Renders : List Char → List Shape → Prop where
  | nil : Renders [] []
  | blank {c : Char} {text : List Char} {shapes : List Shape} :
      Text.isBlank c = true → Renders text shapes → Renders (c :: text) shapes
  | token {shape : Shape} {text : List Char} {shapes : List Shape} :
      shape.EndsBefore text → Renders text shapes →
        Renders (shape.text.toList ++ text) (shape :: shapes)

theorem lexFrom_of_endsBefore {shape : Shape} {more : List Char} (ends : shape.EndsBefore more)
    (tokens : List Token) (cursor : Cursor) : ∃ token after, token.shape = shape ∧
      lexFrom tokens cursor 0 (shape.text.toList ++ more) =
        lexFrom (token :: tokens) after 0 more := by
  obtain ⟨kind, text⟩ := shape
  obtain ⟨c, rest, isText, scanned⟩ := ends
  refine ⟨⟨kind, text, .ofBounds cursor.offset (cursor.after (c :: rest)).offset, cursor.pos⟩,
    cursor.after (c :: rest), rfl, ?_⟩
  have lexed : lexFrom tokens cursor 0 (c :: (rest ++ more)) = _ := lexFrom_of_scan scanned rfl
  rw [isText, List.cons_append, lexed, ← isText]
  simp [Lexeme.token?]

theorem lexFrom_of_renders {text : List Char} {shapes : List Shape} (renders : Renders text shapes)
    (tokens : List Token) (cursor : Cursor) :
    ∃ front last, lexFrom tokens cursor 0 text =
        .ok (tokens.reverse ++ (front ++ [endOfInput last])) ∧
      front.map Token.shape = shapes := by
  induction renders generalizing tokens cursor with
  | nil => exact ⟨[], cursor, by simp [lexFrom], rfl⟩
  | @blank c _ _ isBlank _ induction =>
      rw [lexFrom_blank isBlank]
      exact induction tokens (cursor.next c)
  | token ends _ induction =>
      obtain ⟨token, after, isShape, lexed⟩ := lexFrom_of_endsBefore ends tokens cursor
      obtain ⟨front, last, rest, areShapes⟩ := induction (token :: tokens) after
      refine ⟨token :: front, last, ?_, by simp [isShape, areShapes]⟩
      rw [lexed, rest]
      simp

theorem lex_of_renders {source : String} {shapes : List Shape}
    (renders : Renders source.toList shapes) :
    ∃ front last, lex source = .ok (front ++ [endOfInput last]) ∧
      front.map Token.shape = shapes :=
  lexFrom_of_renders renders [] .start

/-- A text stands for one list of shapes only. -/
theorem Renders.unique {source : String} {shapes others : List Shape}
    (renders : Renders source.toList shapes) (rendersToo : Renders source.toList others) :
    shapes = others := by
  obtain ⟨front, last, lexed, rfl⟩ := lex_of_renders renders
  obtain ⟨front', last', lexedToo, rfl⟩ := lex_of_renders rendersToo
  rw [lexed] at lexedToo
  rw [(List.append_inj' (Except.ok.inj lexedToo) rfl).1]

/-- The text of one token alone, which the token covers. -/
theorem lex_of_spelled {shape : Shape} (spelled : shape.Spelled) :
    lex shape.text = .ok
      [⟨shape.kind, shape.text, .ofBounds 0 shape.text.utf8ByteSize, .start⟩,
        endOfInput (Cursor.start.after shape.text.toList)] := by
  obtain ⟨c, rest, isText, scanned⟩ := spelled.scan_eq
  have lexed : lexFrom [] .start 0 (c :: rest) = _ :=
    lexFrom_of_scan scanned (List.append_nil _).symm
  have offset : (Cursor.start.after shape.text.toList).offset = shape.text.utf8ByteSize := by
    rw [Cursor.offset_after, String.utf8Len_toList]
    exact Nat.zero_add _
  rw [lex, isText, lexed, ← isText, lexFrom]
  simp only [Lexeme.token?, Option.map_some, String.ofList_toList, offset]
  rfl

theorem toList_write_cons_cons (shape next : Shape) (shapes : List Shape) :
    (Shape.write (shape :: next :: shapes)).toList =
      shape.text.toList ++ ' ' :: (Shape.write (next :: shapes)).toList := by
  simp [Shape.write]

theorem renders_write_append {shapes others : List Shape} {more : List Char}
    (writable : Shape.Writable shapes) (ends : ∀ stop ∈ more.head?, Lexeme.Separates stop)
    (renders : Renders more others) :
    Renders ((Shape.write shapes).toList ++ more) (shapes ++ others) := by
  have separates := Lexeme.separates_of_blank (show Text.isBlank ' ' = true by decide)
  induction shapes with
  | nil => simpa [Shape.write] using renders
  | cons shape shapes induction =>
      obtain ⟨first, rest⟩ := Shape.writable_cons.1 writable
      cases shapes with
      | nil => simpa [Shape.write] using Renders.token (first.endsBefore ends) renders
      | cons next shapes =>
          rw [toList_write_cons_cons, List.append_assoc]
          exact .token (first.endsBefore (by simpa using separates))
            (.blank (by decide) (induction rest))

theorem renders_write {shapes : List Shape} (writable : Shape.Writable shapes) :
    Renders (Shape.write shapes).toList shapes := by
  simpa using renders_write_append writable (by simp) .nil

theorem lex_write {shapes : List Shape} (writable : Shape.Writable shapes) :
    ∃ front last, lex (Shape.write shapes) = .ok (front ++ [endOfInput last]) ∧
      front.map Token.shape = shapes :=
  lex_of_renders (renders_write writable)

end Token

end Covenant
