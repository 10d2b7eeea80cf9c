import Covenant.Token.Lexer

/-! What one lexeme takes from the front of a text, and how the tokens of a text follow from it. -/

namespace Covenant

theorem Token.Kind.ofWord_ne {kind : Kind} (word : String) (notName : kind ≠ .identifier)
    (notReserved : ∀ pair ∈ reserved, pair.2 ≠ kind) : ofWord word ≠ kind := by
  have lookedUp (pairs : List (String × Kind)) (kinds : ∀ pair ∈ pairs, pair.2 ≠ kind) :
      (pairs.lookup word).getD identifier ≠ kind := by
    induction pairs with
    | nil => simpa using notName.symm
    | cons pair pairs induction =>
        rw [List.lookup_cons]
        cases word == pair.1 with
        | true => exact kinds pair (by simp)
        | false => exact induction fun other member => kinds other (by simp [member])
  exact lookedUp reserved notReserved

theorem Token.Kind.ofWord_ne_eof (word : String) : ofWord word ≠ .eof :=
  ofWord_ne word (by decide) (by decide)

namespace Lexeme

/-- A lexeme that can stand at the front of a text. -/
structure Fronts (lexeme : Lexeme) (text : List Char) : Prop where
  nonempty : lexeme.text ≠ []
  isPrefix : lexeme.text <+: text
  going : lexeme.kind ≠ some .eof

theorem Fronts.length_lt {lexeme : Lexeme} {text after : List Char} (fronts : lexeme.Fronts text)
    (split : lexeme.text ++ after = text) : after.length < text.length := by
  have positive := List.length_pos_iff.2 fronts.nonempty
  rw [← split, List.length_append]
  exact Nat.lt_add_of_pos_left positive

theorem fronts_symbol? {c : Char} {rest : List Char} {lexeme : Lexeme}
    (found : symbol? c rest = some lexeme) : lexeme.Fronts (c :: rest) := by
  rw [symbol?] at found
  split at found
  · cases found
    exact ⟨by simp, (List.cons_prefix_cons).2 ⟨rfl, List.take_prefix 1 rest⟩, by simp⟩
  · obtain ⟨symbol, _, rfl⟩ := Option.map_eq_some_iff.1 found
    exact ⟨by simp, by simp, by simp⟩

/-- A string ends with its closing quote, after the text that was read before. -/
theorem scanString_eq_ok {escaped : Bool} {read text : List Char} {lexeme : Lexeme}
    (scanned : scanString escaped read text = .ok lexeme) :
    ∃ taken, taken <+: text ∧ lexeme.text = read.reverse ++ taken ∧ taken ≠ [] ∧
      ∃ escapes, lexeme.kind = some (.string escapes) := by
  fun_induction scanString escaped read text with
  | case1 | case3 | case4 | case5 | case7 => cases scanned
  | case2 escaped read rest =>
      cases scanned
      exact ⟨['"'], by simp, by simp, by simp, escaped, rfl⟩
  | case6 escaped read c rest _ _ induction =>
      obtain ⟨taken, isPrefix, text, _, kind⟩ := induction scanned
      exact ⟨'\\' :: c :: taken, by simpa using isPrefix, by simpa using text, by simp, kind⟩
  | case8 escaped read c rest _ _ _ _ _ induction =>
      obtain ⟨taken, isPrefix, text, _, kind⟩ := induction scanned
      exact ⟨c :: taken, by simpa using isPrefix, by simpa using text, by simp, kind⟩

theorem eq_of_startsFraction {text : List Char} (starts : startsFraction text = true) :
    ∃ c rest, text = '.' :: c :: rest ∧ c.isDigit = true := by
  unfold startsFraction at starts
  split at starts
  · next c rest => exact ⟨c, rest, rfl, starts⟩
  · cases starts

theorem fronts_scanNumber {c : Char} {rest : List Char} {lexeme : Lexeme} (digit : c.isDigit = true)
    (scanned : scanNumber (c :: rest) = .ok lexeme) : lexeme.Fronts (c :: rest) := by
  have whole : (c :: rest).takeWhile Char.isDigit ≠ [] := by simp [digit]
  rw [scanNumber] at scanned
  split at scanned
  · next starts =>
      split at scanned
      · cases scanned
      · cases scanned
        refine ⟨by simp, ?_, by simp⟩
        obtain ⟨first, others, fraction, _⟩ := eq_of_startsFraction starts
        have split := List.takeWhile_append_dropWhile (p := Char.isDigit) (l := c :: rest)
        rw [fraction] at split ⊢
        conv => rhs; rw [← split]
        refine (List.prefix_append_right_inj _).2 (List.cons_prefix_cons.2 ⟨rfl, ?_⟩)
        exact List.takeWhile_prefix Char.isDigit
  · cases scanned
    exact ⟨whole, List.takeWhile_prefix _, by simp⟩

theorem fronts_scan {c : Char} {rest : List Char} {lexeme : Lexeme}
    (scanned : scan c rest = .ok lexeme) : lexeme.Fronts (c :: rest) := by
  rw [scan] at scanned
  split at scanned
  · next found =>
      cases scanned
      exact fronts_symbol? found
  · split at scanned
    · cases scanned
      exact ⟨by simp, List.cons_prefix_cons.2 ⟨rfl, List.takeWhile_prefix _⟩, by simp⟩
    split at scanned
    · obtain ⟨taken, isPrefix, text, _, escapes, kind⟩ := scanString_eq_ok scanned
      refine ⟨by simp [text], ?_, by simp [kind]⟩
      simpa [text] using isPrefix
    split at scanned
    · cases scanned
      refine ⟨by simp, List.cons_prefix_cons.2 ⟨rfl, List.takeWhile_prefix _⟩, ?_⟩
      simpa using Token.Kind.ofWord_ne_eof _
    split at scanned
    · next digit => exact fronts_scanNumber digit scanned
    split at scanned
    · cases scanned
      exact ⟨by simp, List.cons_prefix_cons.2 ⟨rfl, List.takeWhile_prefix _⟩, by simp⟩
    · cases scanned

end Lexeme

namespace Token

theorem lexFrom_skip (tokens : List Token) (cursor : Cursor) (skipped rest : List Char) :
    lexFrom tokens cursor skipped.length (skipped ++ rest) = lexFrom tokens cursor 0 rest := by
  induction skipped with
  | nil => rfl
  | cons c skipped induction => exact induction

theorem lexFrom_of_scan {tokens : List Token} {cursor : Cursor} {c : Char} {rest after : List Char}
    {lexeme : Lexeme} (scanned : Lexeme.scan c rest = .ok lexeme)
    (split : c :: rest = lexeme.text ++ after) :
    lexFrom tokens cursor 0 (c :: rest) =
      lexFrom ((lexeme.token? cursor (cursor.after lexeme.text)).toList ++ tokens)
        (cursor.after lexeme.text) 0 after := by
  have nonempty := (Lexeme.fronts_scan scanned).nonempty
  rw [lexFrom, scanned]
  obtain ⟨kind, text⟩ := lexeme
  cases text with
  | nil => exact (nonempty rfl).elim
  | cons first others =>
      obtain ⟨rfl, rfl⟩ := List.cons.inj split
      exact lexFrom_skip _ _ others after

/-- The last token, and only it, marks the end of the input. -/
theorem lexFrom_eq_ok {tokens result : List Token} {cursor : Cursor} {skip : Nat} {text : List Char}
    (lexed : lexFrom tokens cursor skip text = .ok result)
    (going : ∀ token ∈ tokens, token.kind ≠ .eof) :
    ∃ front last, result = front ++ [endOfInput last] ∧ ∀ token ∈ front, token.kind ≠ .eof := by
  fun_induction lexFrom tokens cursor skip text with
  | case1 tokens cursor skip =>
      cases lexed
      exact ⟨tokens.reverse, cursor, by simp, by simpa using going⟩
  | case2 tokens cursor skip c rest induction => exact induction lexed going
  | case3 => cases lexed
  | case4 tokens cursor c rest lexeme scanned after induction =>
      refine induction lexed fun token member => ?_
      rcases List.mem_append.1 member with new | old
      · obtain ⟨kind, isKind, rfl⟩ := Option.map_eq_some_iff.1 (Option.mem_toList.1 new)
        intro ended
        exact (Lexeme.fronts_scan scanned).going (isKind.trans (congrArg some ended))
      · exact going token old

theorem lex_eq_ok {source : String} {result : List Token} (lexed : lex source = .ok result) :
    ∃ front last, result = front ++ [endOfInput last] ∧ ∀ token ∈ front, token.kind ≠ .eof :=
  lexFrom_eq_ok lexed (by simp)

/-- What one step of lexing keeps: `Ready` of the text that is left, and `Holds` of new tokens. -/
structure Invariant (Ready : Cursor → Nat → List Char → Prop) (Holds : Token → Prop) : Prop where
  ends : ∀ {cursor : Cursor} {skip : Nat}, Ready cursor skip [] → Holds (endOfInput cursor)
  skips : ∀ {cursor : Cursor} {skip : Nat} {c : Char} {rest : List Char},
    Ready cursor (skip + 1) (c :: rest) → Ready cursor skip rest
  reads : ∀ {cursor : Cursor} {c : Char} {rest : List Char} {lexeme : Lexeme},
    Ready cursor 0 (c :: rest) → Lexeme.scan c rest = .ok lexeme →
      Ready (cursor.after lexeme.text) (lexeme.text.length - 1) rest ∧
        ∀ token ∈ lexeme.token? cursor (cursor.after lexeme.text), Holds token

theorem Invariant.forall_of_lexFrom {Ready : Cursor → Nat → List Char → Prop}
    {Holds : Token → Prop} (invariant : Invariant Ready Holds) {tokens result : List Token}
    {cursor : Cursor} {skip : Nat} {text : List Char}
    (lexed : lexFrom tokens cursor skip text = .ok result) (ready : Ready cursor skip text)
    (hold : ∀ token ∈ tokens, Holds token) : ∀ token ∈ result, Holds token := by
  fun_induction lexFrom tokens cursor skip text with
  | case1 tokens cursor skip =>
      cases lexed
      intro token member
      rw [List.mem_reverse, List.mem_cons] at member
      rcases member with rfl | old
      · exact invariant.ends ready
      · exact hold token old
  | case2 tokens cursor skip c rest induction => exact induction lexed (invariant.skips ready) hold
  | case3 => cases lexed
  | case4 tokens cursor c rest lexeme scanned after induction =>
      obtain ⟨readyAfter, holdsNew⟩ := invariant.reads ready scanned
      refine induction lexed readyAfter fun token member => ?_
      rcases List.mem_append.1 member with new | old
      · exact holdsNew token (Option.mem_toList.1 new)
      · exact hold token old

theorem Invariant.forall_of_lex {Ready : Cursor → Nat → List Char → Prop} {Holds : Token → Prop}
    (invariant : Invariant Ready Holds) {source : String} {tokens : List Token}
    (lexed : lex source = .ok tokens) (ready : Ready .start 0 source.toList) :
    ∀ token ∈ tokens, Holds token :=
  invariant.forall_of_lexFrom lexed ready (by simp)

theorem ended_of_lex {source : String} {result : List Token} (lexed : lex source = .ok result) :
    ∃ last ∈ result, last.kind = .eof := by
  obtain ⟨front, last, rfl, _⟩ := lex_eq_ok lexed
  exact ⟨endOfInput last, by simp, rfl⟩

end Token

end Covenant
