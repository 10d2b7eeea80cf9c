import Covenant.Error
import Covenant.Proofs.Syntax.Parts

/-! Well-formed programs, and what each semantic error says about a program. Both are said about the
statements and expressions that occur in a program, wherever they stand. -/

namespace Covenant

/-- A scalar, an array of a scalar, or any mapping. -/
inductive TypeName.Supported : TypeName → Prop where
  | scalar {name : String} : name ∈ scalars → Supported (.named name)
  | array {name : String} : name ∈ scalars → Supported (.array (.named name))
  | mapping (key : String) (value : TypeName) : Supported (.mapping key value)

namespace Expr

def IsCallable : Expr → Prop
  | ident _ _ | member _ _ _ => True
  | _ => False

def IsCall : Expr → Prop
  | call _ _ _ => True
  | _ => False

/-- What is asked of an expression apart from its parts. -/
def Formed : Expr → Prop
  | call _ callee _ => callee.IsCallable
  | tuple _ elements => elements ≠ []
  | _ => True

def WellFormed (expr : Expr) : Prop :=
  ∀ part, expr.Contains part → part.Formed

/-- What an expression comes to once accesses are taken off its end. -/
inductive Accesses : Expr → Expr → Prop where
  | self (core : Expr) : Accesses core core
  | member {base core : Expr} (pos : Position) (name : String) :
      Accesses base core → Accesses (.member pos base name) core
  | index {base core : Expr} (pos : Position) (key : Expr) :
      Accesses base core → Accesses (.index pos base key) core

/-- Members and elements, at any depth, of the variable `name`, or this variable itself. -/
def RootedAt (target : Expr) (name : String) : Prop :=
  ∃ pos, target.Accesses (.ident pos name)

/-- Neither a variable nor an access. -/
def IsValue : Expr → Prop
  | ident _ _ | member _ _ _ | index _ _ _ => False
  | _ => True

/-- The errors that one expression causes, apart from its parts. -/
inductive Fault : Expr → Located SemanticError → Prop where
  | notCallable (pos : Position) {callee : Expr} (arguments : List Expr) :
      ¬callee.IsCallable →
        Fault (.call pos callee arguments) ⟨callee.pos, .notCallable callee.form⟩
  | emptyTuple (pos : Position) : Fault (.tuple pos []) ⟨pos, .emptyTuple⟩

/-- The errors that an expression has, at any depth. -/
def Violates (expr : Expr) (error : Located SemanticError) : Prop :=
  ∃ part, expr.Contains part ∧ part.Fault error

end Expr

namespace ReturnType

def arity : ReturnType → Nat
  | single _ => 1
  | tuple names => names.length

/-- Only tuples can fail to fit. One element, or none, fits a single type. -/
def Fits (type : ReturnType) : Expr → Prop
  | .tuple _ elements =>
      match type with
      | single _ => elements.length ≤ 1
      | tuple names => elements.length = names.length
  | _ => True

end ReturnType

namespace Stmt

/-- The variables that a statement declares for its parts. -/
def counters : Stmt → List String
  | for_ _ counter _ _ _ _ => [counter.name]
  | _ => []

/-- The assignments that a statement makes apart from its parts. -/
def assignments : Stmt → List Assignment
  | assign _ assignment => [assignment]
  | for_ _ _ _ _ increment _ => [increment]
  | _ => []

/-- The expressions that stand in a statement apart from its parts. -/
def exprs : Stmt → List Expr
  | assign _ assignment => [assignment.target, assignment.value]
  | if_ _ condition _ _ | while_ _ condition _ => [condition]
  | for_ _ _ start bound increment _ => [start, bound, increment.target, increment.value]
  | return_ _ value => value.toList
  | expr _ value => [value]
  | break_ _ | continue_ _ => []

/-- A statement of a block or, at any depth, of a statement in it. Also given are the counters of
the loops of the block around it, the innermost first. -/
inductive Occurs : List Stmt → List String → Stmt → Prop where
  | here {block : List Stmt} {stmt : Stmt} : stmt ∈ block → Occurs block [] stmt
  | inside {block : List Stmt} {outer stmt : Stmt} {names : List String} :
      outer ∈ block → Occurs outer.parts names stmt → Occurs block (names ++ outer.counters) stmt

/-- What is asked of a statement apart from its parts, in a function with these results, where
these variables are `assignable`. -/
structure Allowed (assignable : List String) (returns : Option ReturnType) (hasLoop : Bool)
    (stmt : Stmt) : Prop where
  jumps : ∀ pos, stmt = .break_ pos ∨ stmt = .continue_ pos → hasLoop = true
  targets : ∀ assignment ∈ stmt.assignments, ∃ name, assignment.target.RootedAt name ∧
    (name ∈ assignable ∨ name ∈ stmt.counters)
  results : ∀ pos value, stmt = .return_ pos (some value) →
    ∃ type, returns = some type ∧ type.Fits value
  alone : ∀ pos value, stmt = .expr pos value → value.IsCall
  wellFormed : ∀ expr ∈ stmt.exprs, expr.WellFormed

/-- The errors that one statement causes, apart from its parts. -/
inductive Fault (assignable : List String) (function : Function) :
    Stmt → Located SemanticError → Prop where
  | break_ (pos : Position) :
      function.body.any Stmt.isLoop = false →
        Fault assignable function (.break_ pos) ⟨pos, .breakOutsideLoop⟩
  | continue_ (pos : Position) :
      function.body.any Stmt.isLoop = false →
        Fault assignable function (.continue_ pos) ⟨pos, .continueOutsideLoop⟩
  | invalidTarget {stmt : Stmt} {assignment : Assignment} {core : Expr} :
      assignment ∈ stmt.assignments → assignment.target.Accesses core → core.IsValue →
        Fault assignable function stmt ⟨core.pos, .invalidTarget core.form⟩
  | undefinedVar {stmt : Stmt} {assignment : Assignment} {name : String} :
      assignment ∈ stmt.assignments → assignment.target.RootedAt name → name ∉ assignable →
        name ∉ stmt.counters →
          Fault assignable function stmt ⟨assignment.target.pos, .undefinedVar name⟩
  | unexpectedValue (pos : Position) (value : Expr) :
      function.returns = none →
        Fault assignable function (.return_ pos (some value))
          ⟨pos, .unexpectedReturnValue function.name.name⟩
  | arity (pos : Position) {type : ReturnType} {value : Position} {elements : List Expr} :
      function.returns = some type → ¬type.Fits (.tuple value elements) →
        Fault assignable function (.return_ pos (some (.tuple value elements)))
          ⟨value, .returnArity type.arity elements.length⟩
  | alone (pos : Position) {value : Expr} :
      ¬value.IsCall →
        Fault assignable function (.expr pos value) ⟨pos, .unsupportedStatement value.form⟩
  | expr {stmt : Stmt} {expr : Expr} {error : Located SemanticError} :
      expr ∈ stmt.exprs → expr.Violates error → Fault assignable function stmt error

end Stmt

namespace Contract

def stateVarNames (contract : Contract) : List String :=
  contract.stateVars.map fun var => var.name.name

/-- A state variable that holds the owner's address. -/
def HasOwner (contract : Contract) : Prop :=
  ∃ var ∈ contract.stateVars, var.name.name = "owner" ∧ var.type = .named "address"

end Contract

/-- A statement is allowed in the body of a function, inside loops with these counters. -/
def Function.Allows (function : Function) (declared counters : List String) (stmt : Stmt) : Prop :=
  stmt.Allowed (declared ++ counters) function.returns (function.body.any Stmt.isLoop)

structure Function.WellFormed (contract : Contract) (function : Function) : Prop where
  constructor_returns : function.isConstructor = true → function.returns = none
  owner : function.modifiers.onlyOwner = true → contract.HasOwner
  mutability : ¬(function.modifiers.payable = true ∧
    (function.modifiers.view = true ∨ function.modifiers.pure = true))
  types : ∀ parameter ∈ function.parameters, parameter.type.Supported
  defaults : ∀ parameter ∈ function.parameters, ∀ value ∈ parameter.default, value.WellFormed
  body : ∀ counters stmt, Stmt.Occurs function.body counters stmt →
    function.Allows contract.stateVarNames counters stmt

namespace Contract

structure WellFormed (contract : Contract) : Prop where
  distinct : contract.stateVarNames.Nodup
  types : ∀ var ∈ contract.stateVars, var.type.Supported
  functions : ∀ function ∈ contract.functions, function.WellFormed contract

/-- The semantic errors that a contract has. -/
inductive Violates (contract : Contract) : Located SemanticError → Prop where
  | varType {var : StateVar} :
      var ∈ contract.stateVars → ¬var.type.Supported →
        Violates contract ⟨var.name.pos, .unsupportedType var.type⟩
  | duplicate {before after : List StateVar} {var : StateVar} :
      contract.stateVars = before ++ var :: after →
        (∃ other ∈ before, other.name.name = var.name.name) →
          Violates contract ⟨var.name.pos, .duplicateStateVar var.name.name⟩
  | constructorReturns {function : Function} :
      function ∈ contract.functions → function.isConstructor = true → function.returns ≠ none →
        Violates contract ⟨function.name.pos, .constructorReturns⟩
  | missingOwner {function : Function} :
      function ∈ contract.functions → function.modifiers.onlyOwner = true → ¬contract.HasOwner →
        Violates contract ⟨function.name.pos, .missingOwner function.name.name⟩
  | mutability {function : Function} :
      function ∈ contract.functions → function.modifiers.payable = true →
        function.modifiers.view = true ∨ function.modifiers.pure = true →
          Violates contract ⟨function.name.pos, .mutabilityConflict function.name.name⟩
  | parameterType {function : Function} {parameter : Parameter} :
      function ∈ contract.functions → parameter ∈ function.parameters →
        ¬parameter.type.Supported →
          Violates contract ⟨parameter.name.pos, .unsupportedType parameter.type⟩
  | default {function : Function} {parameter : Parameter} {value : Expr}
      {error : Located SemanticError} :
      function ∈ contract.functions → parameter ∈ function.parameters →
        parameter.default = some value → value.Violates error → Violates contract error
  | stmt {function : Function} {counters : List String} {stmt : Stmt}
      {error : Located SemanticError} :
      function ∈ contract.functions → Stmt.Occurs function.body counters stmt →
        stmt.Fault (contract.stateVarNames ++ counters) function error → Violates contract error

end Contract

def Program.WellFormed (program : Program) : Prop :=
  ∀ contract ∈ program.contracts, contract.WellFormed

def Program.Violates (program : Program) (error : Located SemanticError) : Prop :=
  ∃ contract ∈ program.contracts, contract.Violates error

end Covenant
