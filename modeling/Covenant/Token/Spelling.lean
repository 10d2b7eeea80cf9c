import Covenant.Token.Lexer

/-! Which texts are tokens, and of what kind, said without reading them from left to right. -/

namespace Covenant.Token

open Covenant.Lexeme (isWordStart isWordChar isEscapable)

/-- What stands between the quotes of a literal, with whether it has an escape. -/
inductive LiteralBody : Bool → List Char → Prop where
  | nil : LiteralBody false []
  | plain {escaped : Bool} {c : Char} {body : List Char} :
      c ≠ '"' → c ≠ '\\' → c ≠ '\n' → LiteralBody escaped body → LiteralBody escaped (c :: body)
  | escape {escaped : Bool} {c : Char} {body : List Char} :
      isEscapable c → LiteralBody escaped body → LiteralBody true ('\\' :: c :: body)

/-- The texts of each kind of token. Nothing spells the end of the input. -/
inductive Spells : Kind → List Char → Prop where
  | word {c : Char} {rest : List Char} :
      isWordStart c → (∀ d ∈ rest, isWordChar d) →
        Spells (.ofWord (String.ofList (c :: rest))) (c :: rest)
  | symbol (sign : Symbol) : Spells (.symbol sign) sign.spelling.toList
  | integer {digits : List Char} :
      digits ≠ [] → (∀ d ∈ digits, d.isDigit) → Spells .number digits
  | decimal {whole fraction : List Char} :
      whole ≠ [] → (∀ d ∈ whole, d.isDigit) → fraction ≠ [] → (∀ d ∈ fraction, d.isDigit) →
        Spells .number (whole ++ '.' :: fraction)
  | literal {escaped : Bool} {body : List Char} :
      LiteralBody escaped body → Spells (.string escaped) ('"' :: body ++ ['"'])

end Covenant.Token
