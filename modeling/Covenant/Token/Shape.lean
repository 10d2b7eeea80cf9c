import Covenant.Token.Basic

/-! Tokens without their places. This is what a program consists of once it is written out; any blank
text between two shapes gives the same program. -/

namespace Covenant

structure Token.Shape where
  kind : Token.Kind
  text : String
deriving DecidableEq

namespace Token

def shape (token : Token) : Shape :=
  ⟨token.kind, token.text⟩

namespace Shape

def word (keyword : Keyword) : Shape :=
  ⟨.keyword keyword, keyword.spelling⟩

def sign (symbol : Symbol) : Shape :=
  ⟨.symbol symbol, symbol.spelling⟩

def name (text : String) : Shape :=
  ⟨.identifier, text⟩

def number (digits : String) : Shape :=
  ⟨.number, digits⟩

/-- The letter after a backslash that stands for a character which strings do not hold as it is. -/
def escapeLetter? : Char → Option Char
  | '\n' => some 'n'
  | '\t' => some 't'
  | '\r' => some 'r'
  | '\\' => some '\\'
  | '"' => some '"'
  | _ => none

def escape (c : Char) : List Char :=
  match escapeLetter? c with
  | some letter => ['\\', letter]
  | none => [c]

/-- The literal of a string. It counts as escaped only if it has an escape. -/
def string (value : String) : Shape :=
  ⟨.string (value.toList.any fun c => (escapeLetter? c).isSome),
    String.ofList ('"' :: value.toList.flatMap escape ++ ['"'])⟩

/-- Items with commas between them. -/
def commaSeparated (items : List (List Shape)) : List Shape :=
  List.intercalate [sign .comma] items

/-- The text of a list of shapes, with a space between any two. -/
def write (shapes : List Shape) : String :=
  String.intercalate " " (shapes.map text)

end Shape

end Token

end Covenant
