import Covenant.Expr.Relocate
import Covenant.Stmt.Basic

/-! Statements with their places changed. -/

namespace Covenant

def Ident.relocate (move : Position → Position) (ident : Ident) : Ident :=
  ⟨ident.name, move ident.pos⟩

def Assignment.relocate (move : Position → Position) (assignment : Assignment) : Assignment :=
  ⟨assignment.target.relocate move, assignment.value.relocate move⟩

namespace Stmt

mutual

/-- Sends every place of a statement through `move`. -/
def relocate (move : Position → Position) : Stmt → Stmt
  | assign pos assignment => assign (move pos) (assignment.relocate move)
  | if_ pos condition yes no =>
      if_ (move pos) (condition.relocate move) (relocateAll move yes)
        (match no with
        | none => none
        | some body => some (relocateAll move body))
  | while_ pos condition body =>
      while_ (move pos) (condition.relocate move) (relocateAll move body)
  | for_ pos counter start bound increment body =>
      for_ (move pos) (counter.relocate move) (start.relocate move) (bound.relocate move)
        (increment.relocate move) (relocateAll move body)
  | break_ pos => break_ (move pos)
  | continue_ pos => continue_ (move pos)
  | return_ pos value => return_ (move pos) (value.map (Expr.relocate move))
  | expr pos value => expr (move pos) (value.relocate move)
termination_by structural stmt => stmt

def relocateAll (move : Position → Position) : List Stmt → List Stmt
  | [] => []
  | stmt :: stmts => stmt.relocate move :: relocateAll move stmts
termination_by structural stmts => stmts

end

@[simp] theorem relocateAll_eq (move : Position → Position) (stmts : List Stmt) :
    relocateAll move stmts = stmts.map (relocate move) := by
  induction stmts with
  | nil => simp [relocateAll]
  | cons stmt stmts induction => simp [relocateAll, induction]

@[simp] theorem relocate_pos (move : Position → Position) (stmt : Stmt) :
    (stmt.relocate move).pos = move stmt.pos := by
  cases stmt <;> simp [relocate, pos]

end Stmt

end Covenant
