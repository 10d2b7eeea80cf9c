import Covenant.Source.Position
import Covenant.Source.Span
import Covenant.Token.Kind

/-! A token is a kind with the text it was read from and the place of that text. -/

namespace Covenant

/-- The text is that of the whole token. Cut out of the source by the span, whose length is kept in
32 bits, a longer text would end early. For sources of up to 4294967294 bytes both are the same
(`Proofs/Checked`). -/
structure Token where
  kind : Token.Kind
  text : String
  span : Span
  pos : Position
deriving DecidableEq

namespace Token

/-- The token that ends every stream: no text, at the end of the source. -/
def endOfInput (cursor : Cursor) : Token :=
  ⟨.eof, "", .ofBounds cursor.offset cursor.offset, cursor.pos⟩

def render (token : Token) : String :=
  s!"Token({token.kind.name}, {token.span.bounds}, {token.pos.render})"

/-- Resolves the escapes of a literal's body. A backslash stands for nothing itself; `n`, `t` and `r`
after it are line feed, tab and carriage return, any other character is taken as it is. -/
def unescape (body : List Char) : List Char :=
  go [] body
where
  go : List Char → List Char → List Char
    | done, [] => done.reverse
    | done, ['\\'] => done.reverse
    | done, '\\' :: c :: rest => go (resolve c :: done) rest
    | done, c :: rest => go (c :: done) rest
  resolve : Char → Char
    | 'n' => '\n'
    | 't' => '\t'
    | 'r' => '\r'
    | c => c

/-- The value of a string literal: its text between the quotes, escapes resolved. -/
def stringValue (token : Token) : String :=
  let body := (token.text.toList.drop 1).dropLast
  match token.kind with
  | .string true => String.ofList (unescape body)
  | _ => String.ofList body

end Token

end Covenant
