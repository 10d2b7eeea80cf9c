/-! Types as declarations write them. -/

namespace Covenant

inductive TypeName where
  | named (name : String)
  | array (element : TypeName)
  | mapping (key : String) (value : TypeName)
deriving DecidableEq

namespace TypeName

/-- The text of a type in signatures, the interface description and trees. -/
def render : TypeName → String
  | named name => name
  | array element => element.render ++ "[]"
  | mapping key value => s!"mapping({key} -> {value.render})"

/-- The scalar types. -/
def scalars : List String :=
  ["uint256", "uint128", "uint64", "uint32", "uint8", "int256", "address", "bool", "string", "bytes",
    "bytes32"]

def isScalar (name : String) : Bool :=
  scalars.contains name

/-- A declaration may use a scalar, an array of a scalar, and any mapping. What a mapping holds is
never looked at. -/
def isSupported : TypeName → Bool
  | named name => isScalar name
  | array (named name) => isScalar name
  | array _ => false
  | mapping _ _ => true

def isNamed (name : String) : TypeName → Bool
  | named other => other == name
  | _ => false

end TypeName

end Covenant
