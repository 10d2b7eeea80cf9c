import Covenant.Rules.Stmt

/-! What the language asks of declarations. The first violation in source order is reported, except
that all state variables of a contract come before its functions. -/

namespace Covenant

def TypeName.check (type : TypeName) (pos : Position) : Verdict :=
  if type.isSupported then pure () else throw ⟨pos, .unsupportedType type⟩

/-- Adds a state variable to those declared before it. -/
def StateVar.declare (names : Std.TreeSet String) (var : StateVar) :
    Except (Located SemanticError) (Std.TreeSet String) := do
  var.type.check var.name.pos
  if names.contains var.name.name then
    throw ⟨var.name.pos, .duplicateStateVar var.name.name⟩
  else
    return names.insert var.name.name

def Parameter.check (parameter : Parameter) : Verdict := do
  parameter.type.check parameter.name.pos
  match parameter.default with
  | none => pure ()
  | some value => value.check

namespace Contract

/-- The state variable that functions for the owner rely on. -/
def hasOwner (contract : Contract) : Bool :=
  contract.stateVars.any fun var => var.name.name == "owner" && var.type.isNamed "address"

def stateNames (contract : Contract) : Except (Located SemanticError) (Std.TreeSet String) :=
  contract.stateVars.foldlM StateVar.declare ∅

end Contract

namespace Function

def scope (function : Function) (stateVars : Std.TreeSet String) : Scope where
  stateVars := stateVars
  function := function.name.name
  returns := function.returns
  hasLoop := function.body.any Stmt.isLoop
  counters := []

/-- What the modifiers and the return type ask of each other. -/
def checkHead (function : Function) (hasOwner : Bool) : Verdict :=
  let modifiers := function.modifiers
  if function.isConstructor && function.returns.isSome then
    throw ⟨function.name.pos, .constructorReturns⟩
  else if modifiers.onlyOwner && !hasOwner then
    throw ⟨function.name.pos, .missingOwner function.name.name⟩
  else if modifiers.payable && (modifiers.view || modifiers.pure) then
    throw ⟨function.name.pos, .mutabilityConflict function.name.name⟩
  else
    pure ()

def check (function : Function) (hasOwner : Bool) (stateVars : Std.TreeSet String) : Verdict := do
  function.checkHead hasOwner
  function.parameters.forM Parameter.check
  Stmt.checkAll (function.scope stateVars) function.body

end Function

def Contract.check (contract : Contract) : Verdict := do
  let names ← contract.stateNames
  contract.functions.forM fun function => function.check contract.hasOwner names

def Program.check (program : Program) : Verdict :=
  program.contracts.forM Contract.check

end Covenant
