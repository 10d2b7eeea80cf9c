import Covenant.Expr.Outline
import Covenant.Stmt.Basic

/-! Statements as text trees. -/

namespace Covenant.Stmt

open Covenant.Expr (labelAt)

def assignOutline (pos : Position) (assignment : Assignment) : Outline :=
  .node (labelAt pos "assign") [assignment.target.outline, assignment.value.outline]

mutual

def outline : Stmt → Outline
  | assign pos assignment => assignOutline pos assignment
  | if_ pos condition yes no =>
      .node (labelAt pos "if") <| [condition.outline, .node "then" (outlinesOnto [] yes)] ++
        match no with
        | none => []
        | some body => [.node "else" (outlinesOnto [] body)]
  | while_ pos condition body =>
      .node (labelAt pos "while") [condition.outline, .node "do" (outlinesOnto [] body)]
  | for_ pos counter start bound increment body =>
      .node (labelAt pos "for")
        [assignOutline counter.pos ⟨counterExpr counter, start⟩,
          bound.outline,
          assignOutline increment.target.pos increment,
          .node "do" (outlinesOnto [] body)]
  | break_ pos => .leaf (labelAt pos "break")
  | continue_ pos => .leaf (labelAt pos "continue")
  | return_ pos value => .node (labelAt pos "return") (value.toList.map Expr.outline)
  | expr pos value => .node (labelAt pos "expr") [value.outline]
termination_by structural stmt => stmt

/-- The trees of `done`, latest first, and then those of the statements. -/
def outlinesOnto (done : List Outline) : List Stmt → List Outline
  | [] => done.reverse
  | stmt :: stmts => outlinesOnto (stmt.outline :: done) stmts
termination_by structural stmts => stmts

end

@[simp] theorem outlinesOnto_eq (done : List Outline) (stmts : List Stmt) :
    outlinesOnto done stmts = done.reverse ++ stmts.map outline := by
  induction stmts generalizing done with
  | nil => simp [outlinesOnto]
  | cons stmt stmts induction => simp [outlinesOnto, induction]

end Covenant.Stmt
