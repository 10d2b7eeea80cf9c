import Covenant.Program.Basic
import Covenant.Stmt.Printer
import Covenant.TypeName.Printer

/-! Writing programs. The state of a contract comes first, then its structures, then its functions. -/

namespace Covenant

open Covenant.Token

/-- A name and its type, with a colon between them. -/
def Ident.typedShapes (name : Ident) (type : TypeName) : List Shape :=
  .name name.name :: .sign .colon :: type.shapes

def StorageLocation.keyword : StorageLocation → Keyword
  | memory => .memory
  | storage => .storage

def StateVar.shapes (var : StateVar) : List Shape :=
  var.name.typedShapes var.type ++
    (var.location.map fun location => .word location.keyword).toList ++ [.sign .semicolon]

def Field.shapes (field : Field) : List Shape :=
  field.name.typedShapes field.type ++ [.sign .semicolon]

def Struct.shapes (struct : Struct) : List Shape :=
  .word .struct :: .name struct.name.name :: Stmt.braced (struct.fields.flatMap Field.shapes)

def Parameter.shapes (parameter : Parameter) : List Shape :=
  parameter.name.typedShapes parameter.type ++
    match parameter.default with
    | none => []
    | some value => .sign .assign :: value.shapes

def ReturnType.shapes : ReturnType → List Shape
  | single name => [.sign .arrow, .name name]
  | tuple names =>
      .sign .arrow :: .sign .lparen ::
        Shape.commaSeparated (names.map fun name => [.name name]) ++ [.sign .rparen]

/-- The modifiers in a fixed order. -/
def Modifiers.shapes (modifiers : Modifiers) : List Shape :=
  ([.payable, .view, .pure, .onlyOwner].filter modifiers.has).map fun modifier =>
    .word modifier.keyword

def Function.shapes (function : Function) : List Shape :=
  .word .def_ :: .name function.name.name ::
    .sign .lparen :: Shape.commaSeparated (function.parameters.map Parameter.shapes) ++
    .sign .rparen :: function.modifiers.shapes ++
    (match function.returns with
    | none => []
    | some type => type.shapes) ++
    Stmt.braced (function.body.flatMap Stmt.shapes)

def Contract.shapes (contract : Contract) : List Shape :=
  .word .contract :: .name contract.name.name ::
    Stmt.braced (contract.stateVars.flatMap StateVar.shapes ++
      contract.structs.flatMap Struct.shapes ++ contract.functions.flatMap Function.shapes)

namespace Program

def shapes (program : Program) : List Shape :=
  program.contracts.flatMap Contract.shapes

/-- The source of a program. -/
def print (program : Program) : String :=
  Shape.write program.shapes

end Program

end Covenant
