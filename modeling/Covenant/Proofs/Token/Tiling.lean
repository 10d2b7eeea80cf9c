import Covenant.Proofs.Checked.Basic
import Mathlib

/-! Tokens tile their source. Between the end of a token and the start of the next there is nothing
but blank characters and comments, and the place of a token is counted from the text before it. -/

namespace Covenant

/-- The line feeds of a text give the line after it, the characters behind the last of them the
column. -/
theorem Cursor.pos_after (text : List Char) :
    (Cursor.start.after text).pos =
      ⟨1 + text.count '\n', 1 + (text.reverse.takeWhile (· ≠ '\n')).length⟩ := by
  induction text using List.reverseRecOn with
  | nil => rfl
  | append_singleton text c induction =>
      rw [after_append, after_cons, after_nil, next, Position.next, induction]
      by_cases ends : c = '\n'
      · simp [ends, Nat.add_assoc]
      · simp [ends, Nat.add_comm]

/-- Text that only separates tokens. A comment ends with its line, or with the text if that is
`final`. -/
inductive Trivia (final : Prop) : List Char → Prop where
  | nil : Trivia final []
  | blank {c : Char} {text : List Char} :
      Text.isBlank c = true → Trivia final text → Trivia final (c :: text)
  | comment {body text : List Char} :
      '\n' ∉ body → Trivia final text → Trivia final ('#' :: body ++ '\n' :: text)
  | lastComment {body : List Char} : final → '\n' ∉ body → Trivia final ('#' :: body)

theorem Trivia.imp {final other : Prop} (implies : final → other) {text : List Char}
    (trivia : Trivia final text) : Trivia other text := by
  induction trivia with
  | nil => exact .nil
  | blank isBlank _ induction => exact .blank isBlank induction
  | comment inLine _ induction => exact .comment inLine induction
  | lastComment isFinal inLine => exact .lastComment (implies isFinal) inLine

namespace Lexeme

theorem scan_comment (rest : List Char) :
    scan '#' rest = .ok ⟨none, '#' :: rest.takeWhile isCommentChar⟩ := by
  have noSymbol : symbol? '#' rest = none := symbol?_eq_none (by decide) rest
  rw [scan, noSymbol]
  rfl

theorem scan_nul (rest : List Char) : scan '\x00' rest = .error ⟨.unexpectedChar '\x00', []⟩ := by
  have noSymbol : symbol? '\x00' rest = none := symbol?_eq_none (by decide) rest
  rw [scan, noSymbol]
  rfl

/-- Besides blank text, comments are the only lexemes of no kind. -/
theorem comment_of_scan {c : Char} {rest text : List Char} (ink : Text.isBlank c = false)
    (scanned : scan c rest = .ok ⟨none, text⟩) :
    c = '#' ∧ text = '#' :: rest.takeWhile isCommentChar := by
  rw [scan] at scanned
  split at scanned
  · next found =>
      obtain ⟨sign, rfl⟩ := eq_of_symbol? found
      cases scanned
  · split at scanned
    · next isComment =>
        subst isComment
        cases scanned
        exact ⟨rfl, rfl⟩
    split at scanned
    · obtain ⟨escapes, body, -, same⟩ := literalBody_of_scanString scanned
      cases same
    split at scanned
    · cases scanned
    split at scanned
    · next isDigit =>
        obtain ⟨digits, same, -⟩ := spells_of_scanNumber isDigit scanned
        cases same
    · rw [if_neg (by simp [ink])] at scanned
      cases scanned

/-- A comment that does not end with its line or the text ends before a character which nothing can
start with. -/
theorem scan_of_comment_end {rest after : List Char} {c : Char}
    (stops : rest.dropWhile isCommentChar = c :: after) :
    c = '\n' ∨ ∃ fault, scan c after = .error fault := by
  have isEnd : isCommentChar c = false := by
    have first := List.head?_dropWhile_not isCommentChar rest
    simpa [stops] using first
  simp only [isCommentChar, Bool.and_eq_false_iff, bne_eq_false_iff_eq] at isEnd
  rcases isEnd with lineFeed | rfl
  · exact .inl lineFeed
  · right
    exact ⟨_, scan_nul after⟩

end Lexeme

namespace Token

/-- The token of a text that stands behind another one. -/
def behind (before : List Char) (kind : Kind) (text : List Char) : Token :=
  ⟨kind, String.ofList text, .ofBounds (Cursor.start.after before).offset
    (Cursor.start.after (before ++ text)).offset, (Cursor.start.after before).pos⟩

/-- The tokens of `text`, which stands behind `before`, with trivia in front of each. -/
inductive Tiles : List Char → List Char → List Token → Prop where
  | last {before gap : List Char} :
      Trivia True gap → Tiles before gap [behind (before ++ gap) .eof []]
  | cons {before gap text rest : List Char} {kind : Kind} {tokens : List Token} :
      Trivia False gap → kind ≠ .eof → text ≠ [] → Tiles (before ++ (gap ++ text)) rest tokens →
        Tiles before (gap ++ (text ++ rest)) (behind (before ++ gap) kind text :: tokens)

/-- Text that can stand in front of any trivia can stand in front of a tiled text. -/
theorem Tiles.skip {before start text : List Char} {tokens : List Token}
    (prolongs : ∀ final gap, Trivia final gap → Trivia final (start ++ gap))
    (tiles : Tiles (before ++ start) text tokens) : Tiles before (start ++ text) tokens := by
  cases tiles with
  | last trivia =>
      rw [List.append_assoc]
      exact .last (prolongs _ _ trivia)
  | @cons _ gap text rest kind tokens trivia going nonempty tiles =>
      rw [List.append_assoc, ← List.append_assoc start]
      rw [List.append_assoc, ← List.append_assoc start] at tiles
      exact .cons (prolongs _ _ trivia) going nonempty tiles

section

variable {before rest after : List Char} {c : Char} {tokens : List Token}

theorem lexFrom_token {kind : Kind} {text : List Char}
    (scanned : Lexeme.scan c rest = .ok ⟨some kind, text⟩) (split : c :: rest = text ++ after)
    (lexed : lexFrom [] (Cursor.start.after before) 0 (c :: rest) = .ok tokens) :
    ∃ more, tokens = behind before kind text :: more ∧
      lexFrom [] (Cursor.start.after (before ++ text)) 0 after = .ok more := by
  rw [lexFrom_of_scan scanned split, ← Cursor.after_append, List.append_nil] at lexed
  change lexFrom ([] ++ [behind before kind text]) _ 0 after = _ at lexed
  rw [lexFrom_append] at lexed
  cases ran : lexFrom [] (Cursor.start.after (before ++ text)) 0 after with
  | error error =>
      rw [ran] at lexed
      cases lexed
  | ok more =>
      rw [ran] at lexed
      cases lexed
      exact ⟨more, rfl, rfl⟩

/-- A comment runs to the end of the text, or to a line feed behind which lexing goes on. -/
theorem lexFrom_comment
    (lexed : lexFrom [] (Cursor.start.after before) 0 ('#' :: rest) = .ok tokens) :
    ('\n' ∉ rest ∧ tokens = [behind (before ++ '#' :: rest) .eof []]) ∨
      ∃ body after, rest = body ++ '\n' :: after ∧ '\n' ∉ body ∧
        lexFrom [] (Cursor.start.after (before ++ ('#' :: body ++ ['\n']))) 0 after =
          .ok tokens := by
  have scanned := Lexeme.scan_comment rest
  have inLine : '\n' ∉ rest.takeWhile Lexeme.isCommentChar := by
    intro member
    have stays := List.mem_takeWhile_imp member
    cases stays
  have split : rest.takeWhile Lexeme.isCommentChar ++ rest.dropWhile Lexeme.isCommentChar = rest :=
    List.takeWhile_append_dropWhile
  rw [lexFrom_of_scan scanned (congrArg ('#' :: ·) split.symm), ← Cursor.after_append] at lexed
  cases remaining : rest.dropWhile Lexeme.isCommentChar with
  | nil =>
      rw [remaining, List.append_nil] at split
      rw [remaining, split] at lexed
      rw [split] at inLine
      cases lexed
      exact .inl ⟨inLine, by simp [behind, endOfInput, Lexeme.token?]⟩
  | cons c after =>
      rw [remaining] at split lexed
      rcases Lexeme.scan_of_comment_end remaining with rfl | ⟨fault, fails⟩
      · refine .inr ⟨_, after, split.symm, inLine, ?_⟩
        rw [lexFrom_blank (by decide)] at lexed
        simpa [Lexeme.token?] using lexed
      · simp [lexFrom, fails] at lexed

end

theorem tiles_of_lexFrom {before text : List Char} {tokens : List Token}
    (lexed : lexFrom [] (Cursor.start.after before) 0 text = .ok tokens) :
    Tiles before text tokens := by
  match text with
  | [] =>
      cases lexed
      have tiles : Tiles before [] _ := .last .nil
      simpa [behind, endOfInput] using tiles
  | c :: rest =>
      have next (before : List Char) (c : Char) :
          (Cursor.start.after before).next c = Cursor.start.after (before ++ [c]) := by simp
      cases blank : Text.isBlank c with
      | true =>
          rw [lexFrom_blank blank, next] at lexed
          exact (tiles_of_lexFrom lexed).skip fun _ _ trivia => .blank blank trivia
      | false =>
          cases scanned : Lexeme.scan c rest with
          | error fault => simp [lexFrom, scanned] at lexed
          | ok lexeme =>
              obtain ⟨kind, text⟩ := lexeme
              cases kind with
              | none =>
                  obtain ⟨rfl, -⟩ := Lexeme.comment_of_scan blank scanned
                  rcases lexFrom_comment lexed with ⟨inLine, rfl⟩ | ⟨body, after, rfl, inLine, goes⟩
                  · exact .last (.lastComment trivial inLine)
                  · have tiles := (tiles_of_lexFrom goes).skip fun _ _ trivia => by
                      rw [List.append_assoc]
                      exact .comment inLine trivia
                    simpa using tiles
              | some kind =>
                  have fronts := Lexeme.fronts_scan scanned
                  obtain ⟨after, split⟩ := fronts.isPrefix
                  obtain ⟨more, rfl, goes⟩ := lexFrom_token scanned split.symm lexed
                  have shorter : after.length < rest.length + 1 := fronts.length_lt split
                  have going : kind ≠ .eof := fun ended => fronts.going (congrArg some ended)
                  rw [← split]
                  have tiles := Tiles.cons .nil going fronts.nonempty (tiles_of_lexFrom goes)
                  simpa using tiles
termination_by text.length

/-! What a tiling says about spans and places. -/

/-- A span that cuts no character, and a place that counts the text before it. -/
structure InPlace (source : String) (token : Token) : Prop where
  text : token.span.slice? source = some token.text
  pos : ∃ before, Span.slice? ⟨0, token.span.lo⟩ source = some before ∧
    token.pos.line = 1 + before.toList.count '\n' ∧
    token.pos.column = 1 + (before.toList.reverse.takeWhile (· ≠ '\n')).length

/-- Tokens with trivia before each of them, up to the one that marks the end of the source. -/
structure Tiled (source : String) (tokens : List Token) : Prop where
  ended : ∃ front last, tokens = front ++ [last] ∧ last.kind = .eof ∧
    last.span = ⟨source.utf8ByteSize, 0⟩ ∧
    ∀ token ∈ front, token.kind ≠ .eof ∧ 0 < token.span.len
  inPlace : ∀ token ∈ tokens, token.InPlace source
  ordered : tokens.Pairwise fun first second => first.span.hi ≤ second.span.lo
  gaps : ∀ pair ∈ List.zip (0 :: tokens.map fun token => token.span.hi) tokens,
    ∃ gap, Span.slice? ⟨pair.1, pair.2.span.lo - pair.1⟩ source = some gap ∧
      Trivia (pair.2.span.lo = source.utf8ByteSize) gap.toList

section

variable {source : String} {before text after : List Char} {kind : Kind} {tokens : List Token}

theorem span_behind (fits : String.utf8Len (before ++ text) ≤ maxSourceBytes) :
    (behind before kind text).span = ⟨String.utf8Len before, String.utf8Len text⟩ :=
  Span.ofBounds_after fits

theorem hi_behind (fits : String.utf8Len (before ++ text) ≤ maxSourceBytes) :
    (behind before kind text).span.hi = String.utf8Len (before ++ text) := by
  rw [span_behind fits, String.utf8Len_append, Span.hi]

theorem inPlace_behind (parts : source.toList = before ++ (text ++ after))
    (fits : String.utf8Len (before ++ text) ≤ maxSourceBytes) :
    (behind before kind text).InPlace source := by
  have front : source.toList = [] ++ (before ++ (text ++ after)) := parts
  constructor
  · rw [span_behind fits]
    exact Span.slice?_of_parts parts
  · refine ⟨String.ofList before, ?_, ?_⟩
    · rw [span_behind fits]
      exact Span.slice?_of_parts front
    · rw [String.toList_ofList, behind, Cursor.pos_after]
      exact ⟨rfl, rfl⟩

/-- The text between a place and the token of a text behind it. -/
theorem slice?_gap {gap : List Char} (parts : source.toList = before ++ (gap ++ (text ++ after)))
    (fits : String.utf8Len (before ++ gap ++ text) ≤ maxSourceBytes) :
    Span.slice? ⟨String.utf8Len before,
      (behind (before ++ gap) kind text).span.lo - String.utf8Len before⟩ source =
        some (String.ofList gap) := by
  rw [span_behind fits, String.utf8Len_append, Nat.add_sub_cancel_left]
  exact Span.slice?_of_parts parts

namespace Tiles

variable (tiles : Tiles before text tokens) (fits : String.utf8Len (before ++ text) ≤ maxSourceBytes)

include tiles fits

theorem ended : ∃ front, tokens = front ++ [behind (before ++ text) .eof []] ∧
    ∀ token ∈ front, token.kind ≠ .eof ∧ 0 < token.span.len := by
  induction tiles with
  | last _ => exact ⟨[], rfl, List.forall_mem_nil _⟩
  | @cons before gap text rest kind tokens _ going nonempty _ induction =>
      have inside : String.utf8Len (before ++ gap ++ text) ≤ maxSourceBytes :=
        (String.utf8Len_le_of_prefix ⟨rest, by simp⟩).trans fits
      obtain ⟨front, rfl, others⟩ := induction (by simpa using fits)
      refine ⟨behind (before ++ gap) kind text :: front, by simp, ?_⟩
      rw [List.forall_mem_cons, span_behind inside]
      exact ⟨⟨going, Nat.pos_of_ne_zero (by simpa using nonempty)⟩, others⟩

theorem inPlace (parts : source.toList = before ++ text) :
    ∀ token ∈ tokens, token.InPlace source := by
  induction tiles with
  | @last before gap _ =>
      have split : source.toList = before ++ gap ++ ([] ++ []) := by simpa using parts
      rw [List.forall_mem_singleton]
      exact inPlace_behind split (by simpa using fits)
  | @cons before gap text rest kind tokens _ _ _ _ induction =>
      have split : source.toList = before ++ gap ++ (text ++ rest) := by simpa using parts
      rw [List.forall_mem_cons]
      constructor
      · apply inPlace_behind split
        exact (String.utf8Len_le_of_prefix ⟨rest, by simp⟩).trans fits
      · exact induction (by simpa using fits) (by simpa using parts)

theorem le_lo : ∀ token ∈ tokens, String.utf8Len before ≤ token.span.lo := by
  induction tiles with
  | last _ =>
      rw [List.forall_mem_singleton, span_behind (by simpa using fits)]
      exact String.utf8Len_le_of_prefix (List.prefix_append _ _)
  | @cons before gap text rest kind tokens _ _ _ _ induction =>
      have inside : String.utf8Len (before ++ gap ++ text) ≤ maxSourceBytes :=
        (String.utf8Len_le_of_prefix ⟨rest, by simp⟩).trans fits
      have later := induction (by simpa using fits)
      rw [List.forall_mem_cons, span_behind inside]
      constructor
      · exact String.utf8Len_le_of_prefix (List.prefix_append _ _)
      · intro token member
        exact (String.utf8Len_le_of_prefix (List.prefix_append _ _)).trans (later token member)

theorem ordered : tokens.Pairwise fun first second => first.span.hi ≤ second.span.lo := by
  induction tiles with
  | last _ => exact List.pairwise_singleton _ _
  | @cons before gap text rest kind tokens _ _ _ tiles induction =>
      have fitsRest : String.utf8Len (before ++ (gap ++ text) ++ rest) ≤ maxSourceBytes := by
        simpa using fits
      have inside : String.utf8Len (before ++ gap ++ text) ≤ maxSourceBytes :=
        (String.utf8Len_le_of_prefix ⟨rest, by simp⟩).trans fits
      rw [List.pairwise_cons]
      refine ⟨?_, induction fitsRest⟩
      intro token member
      rw [hi_behind inside, List.append_assoc]
      exact tiles.le_lo fitsRest token member

theorem gaps (parts : source.toList = before ++ text) :
    ∀ pair ∈ List.zip (String.utf8Len before :: tokens.map fun token => token.span.hi) tokens,
      ∃ gap, Span.slice? ⟨pair.1, pair.2.span.lo - pair.1⟩ source = some gap ∧
        Trivia (pair.2.span.lo = source.utf8ByteSize) gap.toList := by
  induction tiles with
  | @last before gap trivia =>
      have inside : String.utf8Len (before ++ gap ++ []) ≤ maxSourceBytes := by simpa using fits
      have split : source.toList = before ++ (gap ++ ([] ++ [])) := by simpa using parts
      have reaches : (behind (before ++ gap) .eof []).span.lo = source.utf8ByteSize := by
        rw [span_behind inside, ← String.utf8Len_toList, parts]
      intro pair member
      obtain rfl := List.mem_singleton.1 member
      refine ⟨_, slice?_gap split inside, ?_⟩
      rw [String.toList_ofList]
      exact trivia.imp fun _ => reaches
  | @cons before gap text rest kind tokens trivia _ _ _ induction =>
      have inside : String.utf8Len (before ++ gap ++ text) ≤ maxSourceBytes :=
        (String.utf8Len_le_of_prefix ⟨rest, by simp⟩).trans fits
      have later := induction (by simpa using fits) (by simpa using parts)
      rw [List.map_cons, List.zip_cons_cons, hi_behind inside, List.append_assoc,
        List.forall_mem_cons]
      refine ⟨⟨_, slice?_gap parts inside, ?_⟩, later⟩
      rw [String.toList_ofList]
      exact trivia.imp False.elim

end Tiles

end

/-- The tokens of a source of at most `2 ^ 32 - 2` bytes tile it, and their places are true. -/
theorem lex_tiles_source {source : String} (fits : source.utf8ByteSize ≤ 2 ^ 32 - 2)
    {tokens : List Token} (lexed : lex source = .ok tokens) : Tiled source tokens := by
  have tiles : Tiles [] source.toList tokens := tiles_of_lexFrom lexed
  have fitsText : String.utf8Len ([] ++ source.toList) ≤ maxSourceBytes := by
    rw [List.nil_append, String.utf8Len_toList]
    exact fits
  obtain ⟨front, split, going⟩ := tiles.ended fitsText
  refine ⟨⟨front, _, split, rfl, ?_, going⟩, tiles.inPlace fitsText rfl, tiles.ordered fitsText,
    tiles.gaps fitsText rfl⟩
  rw [span_behind (by simpa using fitsText), List.nil_append, String.utf8Len_toList]
  rfl

/-- Characters of more than one byte in a comment, in a literal and between two tokens. -/
def wideSource : String :=
  "# é\n\"é\\n\"\u3000x # y"

def wideTokens : List Token :=
  [⟨.string true, "\"é\\n\"", ⟨5, 6⟩, ⟨2, 1⟩⟩, ⟨.identifier, "x", ⟨14, 1⟩, ⟨2, 7⟩⟩,
    ⟨.eof, "", ⟨19, 0⟩, ⟨2, 12⟩⟩]

theorem wideTokens_tile_source :
    wideSource.utf8ByteSize ≤ 2 ^ 32 - 2 ∧ lex wideSource = .ok wideTokens ∧
      Tiled wideSource wideTokens := by
  have fits : wideSource.utf8ByteSize ≤ 2 ^ 32 - 2 := by decide
  have lexed : lex wideSource = .ok wideTokens := by rfl
  exact ⟨fits, lexed, lex_tiles_source fits lexed⟩

end Token

end Covenant
