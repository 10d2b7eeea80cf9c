import Covenant.Expr.Printer
import Covenant.Stmt.Basic

/-! Writing statements. A semicolon follows every statement that does not end with a block. -/

namespace Covenant.Stmt

open Covenant.Token

/-- The statements of a block between braces. -/
def braced (body : List Shape) : List Shape :=
  .sign .lbrace :: body ++ [.sign .rbrace]

/-- What the increment of a loop adds to its counter. -/
def stepOf (increment : Assignment) : Expr :=
  match increment.value with
  | .binary _ .add _ step => step
  | value => value

mutual

def shapes : Stmt → List Shape
  | assign _ assignment =>
      assignment.target.shapes ++ .sign .assign :: assignment.value.shapes ++ [.sign .semicolon]
  | if_ _ condition yes no =>
      .word .if_ :: condition.shapes ++ braced (bodyShapes yes) ++
        match no with
        | none => []
        | some body => .word .else_ :: braced (bodyShapes body)
  | while_ _ condition body => .word .while_ :: condition.shapes ++ braced (bodyShapes body)
  | for_ _ counter start bound increment body =>
      .word .for_ :: .name counter.name :: .sign .assign :: start.shapes ++
        .name "to" :: bound.shapes ++ .name "step" :: (stepOf increment).shapes ++
        braced (bodyShapes body)
  | break_ _ => [.word .break_, .sign .semicolon]
  | continue_ _ => [.word .continue_, .sign .semicolon]
  | return_ _ none => [.word .return_, .sign .semicolon]
  | return_ _ (some value) => .word .return_ :: value.shapes ++ [.sign .semicolon]
  | expr _ value => value.shapes ++ [.sign .semicolon]
termination_by structural stmt => stmt

def bodyShapes : List Stmt → List Shape
  | [] => []
  | stmt :: stmts => stmt.shapes ++ bodyShapes stmts
termination_by structural stmts => stmts

end

@[simp] theorem bodyShapes_eq (stmts : List Stmt) : bodyShapes stmts = stmts.flatMap shapes := by
  induction stmts with
  | nil => simp [bodyShapes]
  | cons stmt stmts induction => simp [bodyShapes, induction]

end Covenant.Stmt
