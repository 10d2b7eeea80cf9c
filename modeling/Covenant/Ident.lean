import Covenant.Source.Position

/-! Names where they are declared. -/

namespace Covenant

structure Ident where
  name : String
  pos : Position
deriving DecidableEq

end Covenant
