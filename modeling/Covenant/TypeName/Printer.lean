import Covenant.Token.Shape
import Covenant.TypeName.Basic

/-! Writing types. -/

namespace Covenant.TypeName

open Covenant.Token

def shapes : TypeName → List Shape
  | named name => [.name name]
  | array element => element.shapes ++ [.sign .lbracket, .sign .rbracket]
  | mapping key value =>
      [.name "mapping", .sign .lparen, .name key, .sign .arrow] ++ value.shapes ++ [.sign .rparen]

end Covenant.TypeName
