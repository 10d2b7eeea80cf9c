/-! Text trees: one line for each node, indented under its parent. -/

namespace Covenant

inductive Outline where
  | node (label : String) (children : List Outline)

namespace Outline

def leaf (label : String) : Outline :=
  node label []

/-- A line at a depth: two spaces for each level. -/
def line (depth : Nat) (label : String) : String :=
  String.ofList (List.replicate (2 * depth) ' ') ++ label ++ "\n"

mutual

/-- Appends the lines of a tree to `out`. -/
def write (out : String) (depth : Nat) : Outline → String
  | node label children => writeAll (out ++ line depth label) (depth + 1) children
termination_by structural tree => tree

def writeAll (out : String) (depth : Nat) : List Outline → String
  | [] => out
  | tree :: trees => writeAll (write out depth tree) depth trees
termination_by structural trees => trees

end

def render (tree : Outline) : String :=
  write "" 0 tree

def renderAll (trees : List Outline) : String :=
  writeAll "" 0 trees

end Outline

end Covenant
