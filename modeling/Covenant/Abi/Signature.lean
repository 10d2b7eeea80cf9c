import Covenant.Keccak
import Covenant.Program.Basic
import Covenant.Text.Hex

/-! Signatures of functions, and the selectors that stand for them in calls. -/

namespace Covenant

/-- The name with the types of the parameters. Names, defaults and modifiers play no part. -/
def Function.signature (function : Function) : String :=
  let types := function.parameters.map fun parameter => parameter.type.render
  function.name.name ++ "(" ++ String.intercalate "," types ++ ")"

/-- Four bytes, the first of which is the highest. -/
abbrev Selector := UInt32

namespace Selector

/-- The number that up to four bytes spell, the highest first. -/
def ofBytes (bytes : List UInt8) : Selector :=
  bytes.foldl (fun word byte => (word <<< 8) ||| byte.toUInt32) 0

/-- The selector of a signature: the first four bytes of its hash. -/
def ofSignature (signature : String) : Selector :=
  ofBytes ((Keccak.digest signature.toUTF8.data.toList).take 4)

def render (selector : Selector) : String :=
  Hex.padded 8 selector.toNat

end Selector

end Covenant
