/-! Bounds on the work that one compilation may do. -/

namespace Covenant

structure Limits where
  /-- The greatest length of a source, in bytes. -/
  sourceBytes : Nat := 1024 * 1024
  /-- The greatest nesting of blocks, expressions and mapping types. -/
  depth : Nat := 256
deriving DecidableEq

end Covenant
