import Covenant.Program.Basic
import Covenant.Stmt.Relocate

/-! Programs with their places changed. -/

namespace Covenant

def StateVar.relocate (move : Position → Position) (var : StateVar) : StateVar :=
  { var with name := var.name.relocate move }

def Field.relocate (move : Position → Position) (field : Field) : Field :=
  { field with name := field.name.relocate move }

def Struct.relocate (move : Position → Position) (struct : Struct) : Struct :=
  ⟨struct.name.relocate move, struct.fields.map (Field.relocate move)⟩

def Parameter.relocate (move : Position → Position) (parameter : Parameter) : Parameter :=
  ⟨parameter.name.relocate move, parameter.type, parameter.default.map (Expr.relocate move)⟩

def Function.relocate (move : Position → Position) (function : Function) : Function :=
  ⟨function.name.relocate move, function.parameters.map (Parameter.relocate move),
    function.returns, function.modifiers, function.body.map (Stmt.relocate move)⟩

def Contract.relocate (move : Position → Position) (contract : Contract) : Contract :=
  ⟨contract.name.relocate move, contract.stateVars.map (StateVar.relocate move),
    contract.functions.map (Function.relocate move), contract.structs.map (Struct.relocate move)⟩

def Program.relocate (move : Position → Position) (program : Program) : Program :=
  ⟨program.contracts.map (Contract.relocate move)⟩

end Covenant
