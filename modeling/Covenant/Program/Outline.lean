import Covenant.Program.Basic
import Covenant.Stmt.Outline

/-! Programs as text trees. The state comes first, then structures, then functions. -/

namespace Covenant

open Covenant.Expr (labelAt)

def StateVar.outline (var : StateVar) : Outline :=
  let location := match var.location with
    | none => ""
    | some location => " " ++ location.render
  .leaf (labelAt var.name.pos s!"state {var.name.name}: {var.type.render}{location}")

def Field.outline (field : Field) : Outline :=
  .leaf s!"field {field.name.name}: {field.type.render}"

def Struct.outline (struct : Struct) : Outline :=
  .node (labelAt struct.name.pos s!"struct {struct.name.name}") (struct.fields.map Field.outline)

namespace Function

/-- The modifiers, each after a space, in a fixed order. -/
def modifierLabel (modifiers : Modifiers) : String :=
  [Modifier.payable, .view, .pure, .onlyOwner].foldl (fun label modifier =>
    if modifiers.has modifier then label ++ " " ++ modifier.keyword.spelling else label) ""

def label (function : Function) : String :=
  let head := if function.isConstructor then "constructor" else "function " ++ function.name.name
  let parameters := function.parameters.map fun parameter =>
    s!"{parameter.name.name}: {parameter.type.render}"
  let returns := match function.returns with
    | none => ""
    | some type => " -> " ++ type.render
  head ++ "(" ++ String.intercalate ", " parameters ++ ")" ++ modifierLabel function.modifiers ++ returns

def defaultOutlines (parameters : List Parameter) : List Outline :=
  parameters.filterMap fun parameter =>
    parameter.default.map fun value =>
      .node s!"default {parameter.name.name}" [value.outline]

def outline (function : Function) : Outline :=
  .node (labelAt function.name.pos function.label)
    (defaultOutlines function.parameters ++ function.body.map Stmt.outline)

end Function

def Contract.outline (contract : Contract) : Outline :=
  .node (labelAt contract.name.pos s!"contract {contract.name.name}")
    (contract.stateVars.map StateVar.outline ++ contract.structs.map Struct.outline ++
      contract.functions.map Function.outline)

def Program.outlines (program : Program) : List Outline :=
  program.contracts.map Contract.outline

end Covenant
