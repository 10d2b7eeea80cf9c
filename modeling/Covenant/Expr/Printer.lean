import Covenant.Expr.Basic
import Covenant.Token.Shape

/-! Writing expressions, with parentheses only where they are needed. -/

namespace Covenant

open Covenant.Token

/-- Ranks grow from the loosest level to the tightest. -/
def BinaryOp.Level.rank : BinaryOp.Level → Nat
  | logical => 1
  | bitwise => 2
  | comparison => 3
  | additive => 4
  | multiplicative => 5

def Literal.shape : Literal → Shape
  | number digits => .number digits
  | string value => .string value
  | bool true => .word .true_
  | bool false => .word .false_

namespace Expr

/-- A choice binds looser than all operators, an operator in front tighter than those between
operands. -/
def rank : Expr → Nat
  | ternary _ _ _ _ => 0
  | binary _ op _ _ => op.level.rank
  | unary _ _ _ => 6
  | _ => 7

/-- The shapes of an expression where only those of a rank of at least `least` can stand. -/
def grouped (least : Nat) (expr : Expr) (shapes : List Shape) : List Shape :=
  if expr.rank < least then .sign .lparen :: shapes ++ [.sign .rparen] else shapes

/-- A tuple of one element is told apart from a grouped expression by its comma. -/
def tupleShapes : List (List Shape) → List Shape
  | [element] => .sign .lparen :: element ++ [.sign .comma, .sign .rparen]
  | elements => .sign .lparen :: Shape.commaSeparated elements ++ [.sign .rparen]

mutual

def shapes : Expr → List Shape
  | literal _ value => [value.shape]
  | ident _ name => [.name name]
  | unary _ op operand => .sign op.symbol :: operand.grouped 6 operand.shapes
  | binary _ op left right =>
      left.grouped op.level.rank left.shapes ++
        .sign op.symbol :: right.grouped (op.level.rank + 1) right.shapes
  | ternary _ condition yes no =>
      condition.grouped 1 condition.shapes ++
        .sign .question :: yes.shapes ++ .sign .colon :: no.shapes
  | member _ base name => base.shapes ++ [.sign .dot, .name name]
  | index _ base key => base.shapes ++ .sign .lbracket :: key.shapes ++ [.sign .rbracket]
  | call _ callee arguments =>
      callee.shapes ++
        .sign .lparen :: Shape.commaSeparated (shapesEach arguments) ++ [.sign .rparen]
  | tuple _ elements => tupleShapes (shapesEach elements)
  | array _ elements =>
      .sign .lbracket :: Shape.commaSeparated (shapesEach elements) ++ [.sign .rbracket]
  | object _ properties =>
      .sign .lbrace :: Shape.commaSeparated (propertyShapesEach properties) ++ [.sign .rbrace]
termination_by structural expr => expr

def shapesEach : List Expr → List (List Shape)
  | [] => []
  | expr :: exprs => expr.shapes :: shapesEach exprs
termination_by structural exprs => exprs

def propertyShapesEach : List (String × Expr) → List (List Shape)
  | [] => []
  | (key, value) :: properties =>
      (.name key :: .sign .colon :: value.shapes) :: propertyShapesEach properties
termination_by structural properties => properties

end

@[simp] theorem shapesEach_eq (exprs : List Expr) : shapesEach exprs = exprs.map shapes := by
  induction exprs with
  | nil => simp [shapesEach]
  | cons expr exprs induction => simp [shapesEach, induction]

@[simp] theorem propertyShapesEach_eq (properties : List (String × Expr)) :
    propertyShapesEach properties =
      properties.map fun (key, value) => .name key :: .sign .colon :: value.shapes := by
  induction properties with
  | nil => simp [propertyShapesEach]
  | cons property properties induction =>
      obtain ⟨key, value⟩ := property
      simp [propertyShapesEach, induction]

end Expr

end Covenant
