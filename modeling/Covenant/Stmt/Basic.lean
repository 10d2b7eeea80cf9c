import Covenant.Expr.Basic
import Covenant.Ident

/-! Statements. -/

namespace Covenant

structure Assignment where
  target : Expr
  value : Expr

inductive Stmt where
  | assign (pos : Position) (assignment : Assignment)
  | if_ (pos : Position) (condition : Expr) (yes : List Stmt) (no : Option (List Stmt))
  | while_ (pos : Position) (condition : Expr) (body : List Stmt)
  /-- Sets `counter` to `start`, and makes the assignment `increment` after every round. -/
  | for_ (pos : Position) (counter : Ident) (start bound : Expr) (increment : Assignment)
      (body : List Stmt)
  | break_ (pos : Position)
  | continue_ (pos : Position)
  | return_ (pos : Position) (value : Option Expr)
  | expr (pos : Position) (value : Expr)

namespace Stmt

def pos : Stmt → Position
  | assign pos _ | if_ pos _ _ _ | while_ pos _ _ | for_ pos _ _ _ _ _
  | break_ pos | continue_ pos | return_ pos _ | expr pos _ => pos

def isLoop : Stmt → Bool
  | while_ _ _ _ | for_ _ _ _ _ _ _ => true
  | _ => false

/-- The counter of a loop, read as an expression where it is declared. -/
def counterExpr (counter : Ident) : Expr :=
  .ident counter.pos counter.name

/-- Adds `step` to the counter of a loop. -/
def countBy (counter : Ident) (step : Expr) : Assignment :=
  ⟨counterExpr counter, .binary counter.pos .add (counterExpr counter) step⟩

end Stmt

end Covenant
