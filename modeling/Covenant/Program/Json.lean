import Covenant.Program.Basic
import Covenant.Stmt.Json

/-! Programs as JSON. -/

namespace Covenant

def Ident.toJson (ident : Ident) : Json :=
  .object [("name", .string ident.name), ("pos", ident.pos.toJson)]

def TypeName.toJson (type : TypeName) : Json :=
  .string type.render

def StateVar.toJson (var : StateVar) : Json :=
  .object
    [("name", var.name.toJson),
      ("typeName", var.type.toJson),
      ("storageLocation", .ofOption (fun location => .string location.render) var.location)]

def Field.toJson (field : Field) : Json :=
  .object [("name", field.name.toJson), ("type", field.type.toJson)]

def Struct.toJson (struct : Struct) : Json :=
  .object [("name", struct.name.toJson), ("fields", .array (struct.fields.map Field.toJson))]

def Parameter.toJson (parameter : Parameter) : Json :=
  .object
    [("name", parameter.name.toJson),
      ("typeName", parameter.type.toJson),
      ("defaultValue", .ofOption Expr.toJson parameter.default)]

def ReturnType.toJson : ReturnType → Json
  | single name => .string name
  | tuple names => .array (names.map .string)

def Function.toJson (function : Function) : Json :=
  .object
    [("name", function.name.toJson),
      ("parameters", .array (function.parameters.map Parameter.toJson)),
      ("returnType", .ofOption ReturnType.toJson function.returns),
      ("isConstructor", .bool function.isConstructor),
      ("isPayable", .bool function.modifiers.payable),
      ("isView", .bool function.modifiers.view),
      ("isPure", .bool function.modifiers.pure),
      ("isOnlyOwner", .bool function.modifiers.onlyOwner),
      ("body", .array (function.body.map Stmt.toJson))]

def Contract.toJson (contract : Contract) : Json :=
  .object
    [("name", contract.name.toJson),
      ("stateVars", .array (contract.stateVars.map StateVar.toJson)),
      ("functions", .array (contract.functions.map Function.toJson)),
      ("structs", .array (contract.structs.map Struct.toJson))]

def Program.toJson (program : Program) : Json :=
  .object [("contracts", .array (program.contracts.map Contract.toJson))]

end Covenant
