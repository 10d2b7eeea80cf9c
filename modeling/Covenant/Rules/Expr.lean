import Covenant.Error

/-! What the language asks of expressions, wherever they stand. Names are not looked up. -/

namespace Covenant

/-- The outcome of a check: nothing, or the first violation. -/
abbrev Verdict := Except (Located SemanticError) Unit

namespace Expr

mutual

/-- Only a name or a member can be called, and no tuple is empty. -/
def check : Expr → Verdict
  | literal _ _ => pure ()
  | ident _ _ => pure ()
  | unary _ _ operand => operand.check
  | binary _ _ left right => do
      left.check
      right.check
  | ternary _ condition yes no => do
      condition.check
      yes.check
      no.check
  | member _ base _ => base.check
  | index _ base key => do
      base.check
      key.check
  | call _ (ident _ _) arguments => checkAll arguments
  | call _ (member _ base _) arguments => do
      base.check
      checkAll arguments
  | call _ callee _ => throw ⟨callee.pos, .notCallable callee.form⟩
  | tuple pos [] => throw ⟨pos, .emptyTuple⟩
  | tuple _ elements => checkAll elements
  | array _ elements => checkAll elements
  | object _ properties => checkProperties properties
termination_by structural expr => expr

def checkAll : List Expr → Verdict
  | [] => pure ()
  | expr :: exprs => do
      expr.check
      checkAll exprs
termination_by structural exprs => exprs

def checkProperties : List (String × Expr) → Verdict
  | [] => pure ()
  | (_, value) :: properties => do
      value.check
      checkProperties properties
termination_by structural properties => properties

end

/-- The variable that an assignment to this target changes. -/
def root : Expr → Except (Located SemanticError) String
  | ident _ name => pure name
  | member _ base _ => base.root
  | index _ base _ => base.root
  | target => throw ⟨target.pos, .invalidTarget target.form⟩

/-- Checks the keys inside a target, the outermost first. -/
def checkKeys : Expr → Verdict
  | member _ base _ => base.checkKeys
  | index _ base key => do
      key.check
      base.checkKeys
  | _ => pure ()

end Expr

end Covenant
