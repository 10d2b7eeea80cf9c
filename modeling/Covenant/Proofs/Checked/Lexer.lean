import Covenant.Proofs.Checked.Basic

/-! Lexing with checks. The checked lexer goes through a source character by character and looks
words up in the source. -/

namespace Covenant.Checked

/-- What is left of a source, with the place where it starts. -/
structure Reader where
  rest : List Char
  cursor : Cursor

namespace Reader

/-- The next character, and NUL at the end. -/
def peek (reader : Reader) : Char :=
  reader.rest.headD '\x00'

def peekSecond (reader : Reader) : Char :=
  reader.rest.tail.headD '\x00'

def advance : Reader → Checked Reader
  | ⟨[], cursor⟩ => return ⟨[], cursor⟩
  | ⟨c :: rest, cursor⟩ => return ⟨rest, ← nextCursor cursor c⟩

def skipFrom (test : Char → Bool) (cursor : Cursor) : List Char → Checked Reader
  | [] => return ⟨[], cursor⟩
  | c :: rest => do
      if test c then skipFrom test (← nextCursor cursor c) rest
      else return ⟨c :: rest, cursor⟩

def skipWhile (test : Char → Bool) (reader : Reader) : Checked Reader :=
  skipFrom test reader.cursor reader.rest

end Reader

/-- What a reader finds: an error, or a kind of token or none, with the reader behind it. -/
abbrev Found := Except (Located LexError) (Option Token.Kind × Reader)

def isPunctuation (c : Char) : Bool :=
  (33 ≤ c.toNat && c.toNat ≤ 47) || (58 ≤ c.toNat && c.toNat ≤ 64) ||
    (91 ≤ c.toNat && c.toNat ≤ 96) || (123 ≤ c.toNat && c.toNat ≤ 126)

/-- Two characters are looked up as two bytes. -/
def pair? (first second : Char) : Checked (Option Symbol) := do
  if isPunctuation first && isPunctuation second then
    require (first.utf8Size ≤ 1) .wideChar
    require (second.utf8Size ≤ 1) .wideChar
    return Symbol.ofPair? first second
  else
    return none

/-- Reads a string that starts at `start` from its second character on. -/
def string (start : Position) (escaped escaping : Bool) (cursor : Cursor) :
    List Char → Checked Found
  | [] => return .error ⟨start, .unterminatedString⟩
  | c :: rest => do
      let next ← nextCursor cursor c
      if !escaping && c == '"' then return .ok (some (.string escaped), ⟨rest, next⟩)
      else if c == '\n' then return .error ⟨cursor.pos, .lineBreakInString⟩
      else if escaping then
        if Lexeme.isEscapable c then string start escaped false next rest
        else return .error ⟨cursor.pos, .invalidEscape c⟩
      else if c == '\\' then string start true true next rest
      else string start escaped false next rest

def startsFraction (reader : Reader) : Bool :=
  reader.peek == '.' && reader.peekSecond.isDigit

def number (reader : Reader) : Checked Found := do
  let whole ← reader.skipWhile Char.isDigit
  if startsFraction whole then
    let fraction ← (← whole.advance).skipWhile Char.isDigit
    if startsFraction fraction then return .error ⟨fraction.cursor.pos, .secondDecimalPoint⟩
    else return .ok (some .number, fraction)
  else
    return .ok (some .number, whole)

/-- A word is looked up in the source between the places where it starts and ends. -/
def word (source : String) (start : Cursor) (reader : Reader) : Checked Found := do
  let after ← reader.skipWhile Lexeme.isWordChar
  let text ← cut source (← spanOf start.offset after.cursor.offset)
  return .ok (some (.ofWord text), after)

/-- Decides what starts with the character `c` at `start`, which has just been passed. -/
def scan (source : String) (start : Cursor) (c : Char) (reader : Reader) : Checked Found := do
  match ← pair? c reader.peek with
  | some symbol => return .ok (some (.symbol symbol), ← reader.advance)
  | none =>
      match Symbol.ofChar? c with
      | some symbol => return .ok (some (.symbol symbol), reader)
      | none =>
          if c = '#' then return .ok (none, ← reader.skipWhile Lexeme.isCommentChar)
          else if c = '"' then string start.pos false false reader.cursor reader.rest
          else if Lexeme.isWordStart c then word source start reader
          else if c.isDigit then number reader
          else if Text.isBlank c then return .ok (none, ← reader.skipWhile Text.isBlank)
          else return .error ⟨start.pos, .unexpectedChar c⟩

/-- The token that was read from `text`, which starts at `start`, up to the place of a reader. -/
def produce (text : List Char) (start : Cursor) (after : Reader) (kind : Token.Kind) :
    Checked Token := do
  let span ← spanOf start.offset after.cursor.offset
  return ⟨kind, String.ofList (text.take (text.length - after.rest.length)), span, start.pos⟩

/-- Adds the tokens of a text to `tokens`, which stand latest first. The first `skip` characters
have been passed already, and `cursor` is the place behind them. -/
def lexFrom (source : String) (tokens : List Token) (cursor : Cursor) :
    Nat → List Char → Checked (Except (Located LexError) (List Token))
  | _, [] => return .ok ((← produce [] cursor ⟨[], cursor⟩ .eof) :: tokens).reverse
  | skip + 1, _ :: rest => lexFrom source tokens cursor skip rest
  | 0, c :: rest => do
      match ← scan source cursor c ⟨rest, ← nextCursor cursor c⟩ with
      | .error error => return .error error
      | .ok (kind, after) =>
          let produced ← kind.toList.mapM (produce (c :: rest) cursor after)
          lexFrom source (produced ++ tokens) after.cursor (rest.length - after.rest.length) rest

/-- The tokens of a source, which are written to a buffer. The buffer has to be empty. -/
def lex (source : String) (buffer : List Token) :
    Checked (Except (Located LexError) (List Token)) := do
  require (buffer = []) .dirtyBuffer
  lexFrom source buffer .start 0 source.toList

end Covenant.Checked
