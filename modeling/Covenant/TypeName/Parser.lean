import Covenant.Parser.Basic

/-! Reading types. Mappings nest; the brackets of arrays do not. -/

namespace Covenant.Parser

/-- A mapping whose values are of a type that `value` reads. -/
def mappingOf (value : Parser TypeName) : Parser TypeName := do
  let _ ← advance
  let _ ← consume (.symbol .lparen)
  let key ← ident
  let _ ← consume (.symbol .arrow)
  let type ← value
  let _ ← consume (.symbol .rparen)
  return .mapping key.name type

/-- One more pair of brackets, if there is one. -/
def bracketsRound (type : TypeName) : Parser (ForInStep TypeName) := do
  if ← take (.symbol .lbracket) then
    let _ ← consume (.symbol .rbracket)
    return .yield (.array type)
  else
    return .done type

/-- A name with any number of empty brackets after it. -/
def arrayType : Parser TypeName := do
  let name ← ident
  iterate bracketsRound (.named name.name)

/-- A type with at most `levels` mappings inside each other. -/
def typeWithin (limit : Nat) : (levels : Nat) → Parser TypeName
  | 0 => do if ← isWord "mapping" then tooDeep limit else arrayType
  | levels + 1 => do
      if ← isWord "mapping" then nested limit (mappingOf (typeWithin limit levels))
      else arrayType

/-- A type. No more levels can be open than `limit` allows, so as many are enough. -/
def typeName (limit : Nat) : Parser TypeName :=
  typeWithin limit limit

end Covenant.Parser
