import Covenant.Expr.Json
import Covenant.Stmt.Basic

/-! Statements as JSON. -/

namespace Covenant.Stmt

open Covenant.Expr (jsonNode)

def assignFields (assignment : Assignment) : List (String × Json) :=
  [("varName", assignment.target.toJson), ("expression", assignment.value.toJson)]

mutual

def toJson : Stmt → Json
  | assign pos assignment => jsonNode "VariableAssignment" pos (assignFields assignment)
  | if_ pos condition yes no =>
      jsonNode "IfStatement" pos
        [("condition", condition.toJson),
          ("thenBlock", .array (jsonOnto [] yes)),
          ("elseBlock",
            match no with
            | none => .null
            | some body => .array (jsonOnto [] body))]
  | while_ pos condition body =>
      jsonNode "WhileStatement" pos
        [("condition", condition.toJson), ("body", .array (jsonOnto [] body))]
  | for_ pos counter start bound increment body =>
      jsonNode "ForStatement" pos
        [("initialization", .object (assignFields ⟨counterExpr counter, start⟩)),
          ("condition", bound.toJson),
          ("increment", .object (assignFields increment)),
          ("body", .array (jsonOnto [] body))]
  | break_ pos => jsonNode "BreakStatement" pos []
  | continue_ pos => jsonNode "ContinueStatement" pos []
  | return_ pos value => jsonNode "ReturnStatement" pos [("expression", .ofOption Expr.toJson value)]
  | expr pos value => jsonNode "ExpressionStatement" pos [("expression", value.toJson)]
termination_by structural stmt => stmt

/-- The values of `done`, latest first, and then those of the statements. -/
def jsonOnto (done : List Json) : List Stmt → List Json
  | [] => done.reverse
  | stmt :: stmts => jsonOnto (stmt.toJson :: done) stmts
termination_by structural stmts => stmts

end

@[simp] theorem jsonOnto_eq (done : List Json) (stmts : List Stmt) :
    jsonOnto done stmts = done.reverse ++ stmts.map toJson := by
  induction stmts generalizing done with
  | nil => simp [jsonOnto]
  | cons stmt stmts induction => simp [jsonOnto, induction]

end Covenant.Stmt
