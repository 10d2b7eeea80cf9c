import Covenant.Proofs.Checked.Lexing
import Covenant.Proofs.Token.Lexemes
import Covenant.Proofs.Token.Tiling
import Mathlib

/-! Tokens are as long as they can be: of the lexemes of any kind that start where a token starts,
none reaches further than the token. -/

namespace Covenant

namespace Lexeme

/-- How a lexeme is read. This is decided by its first character alone. -/
inductive ReadBy (c : Char) : Prop where
  | symbol : (∀ rest, ∃ lexeme, symbol? c rest = some lexeme ∧ scan c rest = .ok lexeme) → ReadBy c
  /-- Words, comments and blank text go on as long as their characters do. -/
  | run (kind : List Char → Option Token.Kind) (stays : Char → Bool) :
      (∀ rest, scan c rest =
        .ok ⟨kind (rest.takeWhile stays), c :: rest.takeWhile stays⟩) → ReadBy c
  | string : (∀ rest, scan c rest = scanString false [c] rest) → ReadBy c
  | number : c.isDigit = true → (∀ rest, scan c rest = scanNumber (c :: rest)) → ReadBy c
  | unexpected : (∀ rest, scan c rest = .error ⟨.unexpectedChar c, []⟩) → ReadBy c

theorem symbol?_of_ofChar? {c : Char} {sign : Symbol} (single : Symbol.ofChar? c = some sign)
    (rest : List Char) : ∃ lexeme, symbol? c rest = some lexeme := by
  rw [symbol?]
  split
  · exact ⟨_, rfl⟩
  · exact ⟨_, by rw [single]; rfl⟩

theorem readBy (c : Char) : ReadBy c := by
  cases single : Symbol.ofChar? c with
  | some sign =>
      apply ReadBy.symbol
      intro rest
      obtain ⟨lexeme, found⟩ := symbol?_of_ofChar? single rest
      exact ⟨lexeme, found, by rw [scan, found]⟩
  | none =>
      have noSymbol (rest : List Char) : symbol? c rest = none := symbol?_eq_none single rest
      by_cases isComment : c = '#'
      · exact .run (fun _ => none) isCommentChar fun rest => by
          rw [scan, noSymbol, if_pos isComment]
      by_cases isQuote : c = '"'
      · exact .string fun rest => by simp only [scan, noSymbol, if_neg isComment, if_pos isQuote]
      by_cases isWord : isWordStart c = true
      · exact .run (fun word => some (.ofWord (String.ofList (c :: word)))) isWordChar fun rest => by
          simp only [scan, noSymbol, if_neg isComment, if_neg isQuote, if_pos isWord]
      by_cases isDigit : c.isDigit = true
      · exact .number isDigit fun rest => scan_digit isDigit
      cases blank : Text.isBlank c with
      | true => exact .run (fun _ => none) Text.isBlank (scan_blank blank)
      | false =>
          exact .unexpected fun rest => by
            simp only [scan, noSymbol, if_neg isComment, if_neg isQuote, if_neg isWord,
              if_neg isDigit, blank, Bool.false_eq_true, if_false]

/-! More text behind a lexeme can only prolong it. -/

theorem symbol?_grows {c : Char} {rest more : List Char} {lexeme longer : Lexeme}
    (found : symbol? c rest = some lexeme) (foundMore : symbol? c (rest ++ more) = some longer) :
    lexeme.text <+: longer.text := by
  cases rest with
  | nil =>
      obtain ⟨sign, -, rfl⟩ := Option.map_eq_some_iff.1 found
      have fronts := fronts_symbol? foundMore
      obtain ⟨first, others, isText⟩ := List.exists_cons_of_ne_nil fronts.nonempty
      have isPrefix := fronts.isPrefix
      rw [isText, List.cons_prefix_cons] at isPrefix
      rw [isText, isPrefix.1]
      exact List.prefix_append [c] others
  | cons d rest =>
      have same : symbol? c (d :: rest ++ more) = symbol? c (d :: rest) := by simp [symbol?]
      rw [same, found] at foundMore
      cases foundMore
      exact List.prefix_rfl

theorem startsFraction_append_of_true {text : List Char} (starts : startsFraction text = true)
    (more : List Char) : startsFraction (text ++ more) = true := by
  obtain ⟨c, rest, rfl, isDigit⟩ := eq_of_startsFraction starts
  exact isDigit

theorem scanNumber_grows {text more : List Char} {lexeme longer : Lexeme}
    (scanned : scanNumber text = .ok lexeme) (scannedMore : scanNumber (text ++ more) = .ok longer) :
    lexeme.text <+: longer.text := by
  rw [scanNumber] at scanned scannedMore
  split at scanned
  · next starts =>
      obtain ⟨c, rest, fraction, -⟩ := eq_of_startsFraction starts
      have stops : text.dropWhile Char.isDigit ≠ [] := by simp [fraction]
      simp only [takeWhile_append_of_stop stops, dropWhile_append_of_stop stops,
        if_pos (startsFraction_append_of_true starts more)] at scannedMore
      split at scanned
      · cases scanned
      split at scannedMore
      · cases scannedMore
      cases scanned
      cases scannedMore
      simp only [fraction, List.cons_append, List.tail_cons]
      refine (List.prefix_append_right_inj _).2 (List.cons_prefix_cons.2 ⟨rfl, ?_⟩)
      exact takeWhile_prefix_append Char.isDigit (c :: rest) more
  · have whole := takeWhile_prefix_append Char.isDigit text more
    cases scanned
    split at scannedMore
    · split at scannedMore
      · cases scannedMore
      · cases scannedMore
        exact whole.trans (List.prefix_append _ _)
    · cases scannedMore
      exact whole

theorem scan_grows {c : Char} {rest more : List Char} {lexeme longer : Lexeme}
    (scanned : scan c rest = .ok lexeme) (scannedMore : scan c (rest ++ more) = .ok longer) :
    lexeme.text <+: longer.text := by
  cases readBy c with
  | symbol reads =>
      obtain ⟨found, isFound, scans⟩ := reads rest
      obtain ⟨foundMore, isFoundMore, scansMore⟩ := reads (rest ++ more)
      rw [scans] at scanned
      rw [scansMore] at scannedMore
      cases scanned
      cases scannedMore
      exact symbol?_grows isFound isFoundMore
  | run kind stays reads =>
      rw [reads] at scanned scannedMore
      cases scanned
      cases scannedMore
      exact List.cons_prefix_cons.2 ⟨rfl, takeWhile_prefix_append stays rest more⟩
  | string reads =>
      rw [reads] at scanned scannedMore
      rw [scanString_append scanned] at scannedMore
      cases scannedMore
      exact List.prefix_rfl
  | number _ reads =>
      rw [reads] at scanned scannedMore
      exact scanNumber_grows scanned scannedMore
  | unexpected reads =>
      rw [reads] at scanned
      cases scanned

open Token (Spells)

theorem prefix_of_spells {c : Char} {rest : List Char} {lexeme : Lexeme}
    (scanned : scan c rest = .ok lexeme) {kind : Token.Kind} {text : List Char}
    (spells : Spells kind text) (isPrefix : text <+: c :: rest) : text <+: lexeme.text := by
  obtain ⟨more, split⟩ := isPrefix
  cases text with
  | nil => exact List.nil_prefix
  | cons first others =>
      obtain ⟨rfl, rfl⟩ := List.cons.inj split
      exact scan_grows (scan_of_spells spells) scanned

end Lexeme

namespace Token

/-- A token that is the lexeme scanned where it stands. -/
def ScannedIn (source : String) (token : Token) : Prop :=
  ∃ before c rest kind text, source.toList = before ++ c :: rest ∧
    Lexeme.scan c rest = .ok ⟨some kind, text⟩ ∧ token = behind before kind text

theorem invariant_scanned (source : String) :
    Invariant (fun cursor skip text => cursor.Ahead source skip text)
      fun token => token.kind ≠ .eof → token.ScannedIn source where
  ends _ going := (going rfl).elim
  skips := .skip
  reads := by
    rintro cursor c rest ⟨kind, text⟩ ahead scanned
    refine ⟨ahead.next (Lexeme.fronts_scan scanned), fun token member _ => ?_⟩
    obtain ⟨before, parts, -, rfl⟩ := ahead
    obtain ⟨kind, rfl, rfl⟩ := Option.map_eq_some_iff.1 member
    refine ⟨before, c, rest, kind, text, parts, scanned, ?_⟩
    simp [behind]

/-- A lexeme at the front of a text, and the longest one there. -/
structure LongestLexeme (text : List Char) (front : String) : Prop where
  isLexeme : IsLexeme front
  isPrefix : front.toList <+: text
  longest : ∀ other : String, IsLexeme other → other.toList <+: text → other.length ≤ front.length

theorem longestLexeme_of_scan {c : Char} {rest text : List Char} {kind : Kind}
    (scanned : Lexeme.scan c rest = .ok ⟨some kind, text⟩) :
    LongestLexeme (c :: rest) (String.ofList text) where
  isLexeme := ⟨kind, by simpa using Lexeme.spells_of_scan scanned⟩
  isPrefix := by simpa using (Lexeme.fronts_scan scanned).isPrefix
  longest := by
    rintro other ⟨otherKind, spells⟩ isPrefix
    have within := Lexeme.prefix_of_spells scanned spells isPrefix
    rw [← String.length_toList, ← String.length_toList, String.toList_ofList]
    exact within.length_le

/-- The text of every token is the longest lexeme at the front of the source from the token on. -/
theorem lex_longest_match {source : String} {tokens : List Token} (lexed : lex source = .ok tokens) :
    ∀ token ∈ tokens, token.kind ≠ .eof →
      ∃ before rest, splitBytes? token.span.lo source.toList = some (before, rest) ∧
        token.span.len = min token.text.utf8ByteSize Span.maxLen ∧
        LongestLexeme rest token.text := by
  intro token member going
  obtain ⟨before, c, rest, kind, text, parts, scanned, rfl⟩ :=
    (invariant_scanned source).forall_of_lex lexed (.start source) token member going
  have offset (text : List Char) : (Cursor.start.after text).offset = String.utf8Len text := by
    rw [Cursor.offset_after]
    exact Nat.zero_add _
  refine ⟨before, c :: rest, ?_, ?_, longestLexeme_of_scan scanned⟩
  · rw [parts, behind, Span.ofBounds, offset]
    exact splitBytes?_append before (c :: rest)
  · rw [behind, Span.ofBounds, offset, offset, String.utf8Len_append, Nat.add_sub_cancel_left,
      ← String.utf8Len_toList, String.toList_ofList]

/-- Tokens with nothing between them. -/
def denseSource : String :=
  "a1>=2.5.b\"\\\"\""

def denseTokens : List Token :=
  [⟨.identifier, "a1", ⟨0, 2⟩, ⟨1, 1⟩⟩, ⟨.symbol .greaterEq, ">=", ⟨2, 2⟩, ⟨1, 3⟩⟩,
    ⟨.number, "2.5", ⟨4, 3⟩, ⟨1, 5⟩⟩, ⟨.symbol .dot, ".", ⟨7, 1⟩, ⟨1, 8⟩⟩,
    ⟨.identifier, "b", ⟨8, 1⟩, ⟨1, 9⟩⟩, ⟨.string true, "\"\\\"\"", ⟨9, 4⟩, ⟨1, 10⟩⟩,
    .endOfInput ⟨13, ⟨1, 14⟩⟩]

/-- The operator is not split, and the number does not end before its fraction. -/
theorem dense_longest_match :
    lex denseSource = .ok denseTokens ∧ LongestLexeme ">=2.5.b\"\\\"\"".toList ">=" ∧
      LongestLexeme "2.5.b\"\\\"\"".toList "2.5" := by
  have lexed : lex denseSource = .ok denseTokens := by rfl
  have longest := lex_longest_match lexed
  refine ⟨lexed, ?_, ?_⟩
  · obtain ⟨before, rest, split, -, isLongest⟩ :=
      longest ⟨.symbol .greaterEq, ">=", ⟨2, 2⟩, ⟨1, 3⟩⟩ (by decide) (by decide)
    cases split
    exact isLongest
  · obtain ⟨before, rest, split, -, isLongest⟩ :=
      longest ⟨.number, "2.5", ⟨4, 3⟩, ⟨1, 5⟩⟩ (by decide) (by decide)
    cases split
    exact isLongest

end Token

end Covenant
