import Covenant.Error
import Covenant.Text.Blank
import Covenant.Token.Basic

/-! From text to tokens. What stands at the front of a text is decided by its characters alone; the
places of tokens and errors come from the text that was read before. -/

namespace Covenant

/-- What stands at the front of a text: a token's text with its kind, or text of no kind that only
separates tokens. -/
structure Lexeme where
  kind : Option Token.Kind
  text : List Char
deriving DecidableEq

/-- An error at the front of a text, with the part of the text that precedes the place of the error. -/
structure LexFault where
  error : LexError
  before : List Char
deriving DecidableEq

namespace Lexeme

def isWordStart (c : Char) : Bool :=
  c.isAlpha || c == '_'

def isWordChar (c : Char) : Bool :=
  c.isAlphanum || c == '_'

/-- A comment runs to the end of its line. A NUL character ends it as well. -/
def isCommentChar (c : Char) : Bool :=
  c != '\n' && c != '\x00'

/-- The characters that may follow a backslash in a string. -/
def isEscapable (c : Char) : Bool :=
  c == 'n' || c == 't' || c == 'r' || c == '\\' || c == '"'

/-- Whether a text goes on with a point and a digit, and so with the fraction of a number. -/
def startsFraction : List Char → Bool
  | '.' :: c :: _ => c.isDigit
  | _ => false

/-- A number is a run of digits and at most one fraction; a second fraction is an error. -/
def scanNumber (text : List Char) : Except LexFault Lexeme :=
  let whole := text.takeWhile Char.isDigit
  let rest := text.dropWhile Char.isDigit
  if startsFraction rest then
    let fraction := rest.tail.takeWhile Char.isDigit
    let number := whole ++ '.' :: fraction
    if startsFraction (rest.tail.dropWhile Char.isDigit) then
      .error ⟨.secondDecimalPoint, number⟩
    else
      .ok ⟨some .number, number⟩
  else
    .ok ⟨some .number, whole⟩

/-- Reads a string from its second character on. `read` is the text so far, latest character first. -/
def scanString (escaped : Bool) (read : List Char) : List Char → Except LexFault Lexeme
  | [] => .error ⟨.unterminatedString, []⟩
  | '"' :: _ => .ok ⟨some (.string escaped), ('"' :: read).reverse⟩
  | '\n' :: _ => .error ⟨.lineBreakInString, read.reverse⟩
  | ['\\'] => .error ⟨.unterminatedString, []⟩
  | '\\' :: '\n' :: _ => .error ⟨.lineBreakInString, ('\\' :: read).reverse⟩
  | '\\' :: c :: rest =>
      if isEscapable c then scanString true (c :: '\\' :: read) rest
      else .error ⟨.invalidEscape c, ('\\' :: read).reverse⟩
  | c :: rest => scanString escaped (c :: read) rest

/-- The operator at the front of a text. Two characters win over one. -/
def symbol? (c : Char) (rest : List Char) : Option Lexeme :=
  match rest.head?.bind (Symbol.ofPair? c) with
  | some symbol => some ⟨some (.symbol symbol), c :: rest.take 1⟩
  | none => (Symbol.ofChar? c).map fun symbol => ⟨some (.symbol symbol), [c]⟩

/-- The lexeme at the front of the text `c :: rest`. -/
def scan (c : Char) (rest : List Char) : Except LexFault Lexeme :=
  match symbol? c rest with
  | some lexeme => .ok lexeme
  | none =>
      if c = '#' then .ok ⟨none, c :: rest.takeWhile isCommentChar⟩
      else if c = '"' then scanString false [c] rest
      else if isWordStart c then
        let word := c :: rest.takeWhile isWordChar
        .ok ⟨some (.ofWord (String.ofList word)), word⟩
      else if c.isDigit then scanNumber (c :: rest)
      else if Text.isBlank c then .ok ⟨none, c :: rest.takeWhile Text.isBlank⟩
      else .error ⟨.unexpectedChar c, []⟩

/-- The token of a lexeme that was read from `before` to `after`. -/
def token? (lexeme : Lexeme) (before after : Cursor) : Option Token :=
  lexeme.kind.map fun kind =>
    ⟨kind, String.ofList lexeme.text, .ofBounds before.offset after.offset, before.pos⟩

end Lexeme

namespace Token

/-- Adds the tokens of a text to `tokens`, which stand latest first. The first `skip` characters
belong to a lexeme already read; `cursor` is the place after them. -/
def lexFrom (tokens : List Token) (cursor : Cursor) :
    Nat → List Char → Except (Located LexError) (List Token)
  | _, [] => .ok (endOfInput cursor :: tokens).reverse
  | skip + 1, _ :: rest => lexFrom tokens cursor skip rest
  | 0, c :: rest =>
      match Lexeme.scan c rest with
      | .error fault => .error ⟨(cursor.after fault.before).pos, fault.error⟩
      | .ok lexeme =>
          let after := cursor.after lexeme.text
          lexFrom ((lexeme.token? cursor after).toList ++ tokens) after
            (lexeme.text.length - 1) rest

/-- The tokens of a source, the last of which marks its end. -/
def lex (source : String) : Except (Located LexError) (List Token) :=
  lexFrom [] .start 0 source.toList

end Token

end Covenant
