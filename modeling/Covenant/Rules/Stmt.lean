import Std.Data.TreeSet
import Covenant.Rules.Expr

/-! What the language asks of statements. -/

namespace Covenant

/-- What a statement may refer to in its function. -/
structure Scope where
  stateVars : Std.TreeSet String
  function : String
  returns : Option ReturnType
  /-- Whether a loop stands directly in the body of the function. Nothing else decides whether
  `break` and `continue` are allowed, however deep they stand. -/
  hasLoop : Bool
  /-- The counters of the loops around the statement. -/
  counters : List String

namespace Scope

def isVariable (scope : Scope) (name : String) : Bool :=
  scope.stateVars.contains name || scope.counters.contains name

def enter (scope : Scope) (counter : String) : Scope :=
  { scope with counters := counter :: scope.counters }

end Scope

/-- A tuple has to fit the return type. A single type also takes a tuple of one element. -/
def ReturnType.checkValue (type : ReturnType) : Expr → Verdict
  | .tuple pos elements =>
      match type with
      | single _ =>
          if elements.length ≤ 1 then pure ()
          else throw ⟨pos, .returnArity 1 elements.length⟩
      | tuple names =>
          if elements.length = names.length then pure ()
          else throw ⟨pos, .returnArity names.length elements.length⟩
  | _ => pure ()

namespace Stmt

def checkAssign (scope : Scope) (assignment : Assignment) : Verdict := do
  let name ← assignment.target.root
  if scope.isVariable name then
    assignment.target.checkKeys
    assignment.value.check
  else
    throw ⟨assignment.target.pos, .undefinedVar name⟩

/-- A value can be returned only where a return type says so. -/
def checkReturn (scope : Scope) (pos : Position) : Option Expr → Verdict
  | none => pure ()
  | some value =>
      match scope.returns with
      | none => throw ⟨pos, .unexpectedReturnValue scope.function⟩
      | some type => do
          value.check
          type.checkValue value

/-- Only calls stand alone. -/
def checkAlone (pos : Position) (value : Expr) : Verdict :=
  match value with
  | .call _ _ _ => value.check
  | _ => throw ⟨pos, .unsupportedStatement value.form⟩

mutual

def check (scope : Scope) : Stmt → Verdict
  | assign _ assignment => checkAssign scope assignment
  | if_ _ condition yes no => do
      condition.check
      checkAll scope yes
      match no with
      | none => pure ()
      | some body => checkAll scope body
  | while_ _ condition body => do
      condition.check
      checkAll scope body
  | for_ _ counter start bound increment body => do
      start.check
      bound.check
      checkAssign (scope.enter counter.name) increment
      checkAll (scope.enter counter.name) body
  | break_ pos => if scope.hasLoop then pure () else throw ⟨pos, .breakOutsideLoop⟩
  | continue_ pos => if scope.hasLoop then pure () else throw ⟨pos, .continueOutsideLoop⟩
  | return_ pos value => checkReturn scope pos value
  | expr pos value => checkAlone pos value
termination_by structural stmt => stmt

def checkAll (scope : Scope) : List Stmt → Verdict
  | [] => pure ()
  | stmt :: stmts => do
      stmt.check scope
      checkAll scope stmts
termination_by structural stmts => stmts

end

end Stmt

end Covenant
