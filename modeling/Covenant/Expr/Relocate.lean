import Covenant.Expr.Basic

/-! Expressions with their places changed. Nothing but messages and trees depends on places. -/

namespace Covenant.Expr

mutual

/-- Sends every place of an expression through `move`. -/
def relocate (move : Position → Position) : Expr → Expr
  | literal pos value => literal (move pos) value
  | ident pos name => ident (move pos) name
  | unary pos op operand => unary (move pos) op (operand.relocate move)
  | binary pos op left right => binary (move pos) op (left.relocate move) (right.relocate move)
  | ternary pos condition yes no =>
      ternary (move pos) (condition.relocate move) (yes.relocate move) (no.relocate move)
  | member pos base name => member (move pos) (base.relocate move) name
  | index pos base key => index (move pos) (base.relocate move) (key.relocate move)
  | call pos callee arguments => call (move pos) (callee.relocate move) (relocateAll move arguments)
  | tuple pos elements => tuple (move pos) (relocateAll move elements)
  | array pos elements => array (move pos) (relocateAll move elements)
  | object pos properties => object (move pos) (relocateProperties move properties)
termination_by structural expr => expr

def relocateAll (move : Position → Position) : List Expr → List Expr
  | [] => []
  | expr :: exprs => expr.relocate move :: relocateAll move exprs
termination_by structural exprs => exprs

def relocateProperties (move : Position → Position) : List (String × Expr) → List (String × Expr)
  | [] => []
  | (key, value) :: properties => (key, value.relocate move) :: relocateProperties move properties
termination_by structural properties => properties

end

@[simp] theorem relocateAll_eq (move : Position → Position) (exprs : List Expr) :
    relocateAll move exprs = exprs.map (relocate move) := by
  induction exprs with
  | nil => simp [relocateAll]
  | cons expr exprs induction => simp [relocateAll, induction]

@[simp] theorem relocateProperties_eq (move : Position → Position)
    (properties : List (String × Expr)) :
    relocateProperties move properties =
      properties.map fun (key, value) => (key, value.relocate move) := by
  induction properties with
  | nil => simp [relocateProperties]
  | cons property properties induction =>
      obtain ⟨key, value⟩ := property
      simp [relocateProperties, induction]

@[simp] theorem relocate_pos (move : Position → Position) (expr : Expr) :
    (expr.relocate move).pos = move expr.pos := by
  cases expr <;> simp [relocate, pos]

end Covenant.Expr
