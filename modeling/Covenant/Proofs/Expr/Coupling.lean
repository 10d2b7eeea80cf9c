import Covenant.Proofs.Expr.Reading
import Covenant.Proofs.Parser.Lockstep
import Covenant.TypeName.Parser

/-! The routines for types and expressions keep in step. -/

namespace Covenant.Parser

variable {runs : Comparison}

/-! Types. They have no places. -/

section

variable {value otherValue : Parser TypeName}

theorem coupled_mappingOf (coupled : Coupled runs id value otherValue) :
    Coupled runs id (mappingOf value) (mappingOf otherValue) := by
  refine .advance_bind fun _ _ _ => .consume_bind fun _ _ _ _ => ?_
  refine Coupled.ident.bind fun _ => .consume_bind fun _ _ _ _ => ?_
  exact coupled.bind fun _ => .consume_bind fun _ _ _ _ => .pure rfl

theorem coupled_bracketsRound (type : TypeName) :
    Coupled runs (mapStep id) (bracketsRound type) (bracketsRound type) := by
  refine (Coupled.take _).bind fun _ => .ite (fun _ => ?_) fun _ => .pure rfl
  exact .consume_bind fun _ _ _ _ => .pure rfl

theorem progressive_bracketsRound : Progressive bracketsRound := by
  refine fun type => reads_take_bind (by simp) (fun opening _ => ?_) (.pure trivial)
  exact (reads_consume (by simp)).bind fun _ _ _ => .pure (by simp [Round])

theorem coupled_arrayType : Coupled runs id arrayType arrayType :=
  Coupled.ident.bind fun _ => .iterate coupled_bracketsRound progressive_bracketsRound _

theorem typeWithin_eq (limit levels : Nat) :
    typeWithin limit levels = isWord "mapping" >>= fun isMapping =>
      if isMapping then below limit (fun level => mappingOf (typeWithin limit level)) levels
      else arrayType := by
  cases levels <;> rfl

theorem coupled_typeWithin (levels : Nat) :
    Coupled runs id (typeWithin runs.limit levels)
      (typeWithin runs.otherLimit (levels + runs.extra)) := by
  induction levels using Nat.strongRecOn with
  | ind levels induction =>
      rw [typeWithin_eq, typeWithin_eq]
      refine (Coupled.isWord _).bind fun _ => .ite (fun _ => ?_) fun _ => coupled_arrayType
      exact .below fun level smaller => coupled_mappingOf (induction level smaller)

end

/-! Operators. -/

section

variable {operand otherOperand : Parser Expr}
  (coupled : Coupled runs (Expr.relocate runs.move) operand otherOperand)

include coupled

theorem coupled_operatorRound (level : BinaryOp.Level) (left : Expr) :
    Coupled runs (mapStep (Expr.relocate runs.move))
      (operatorRound runs.limit level operand left)
      (operatorRound runs.otherLimit level otherOperand (left.relocate runs.move)) := by
  refine .peek_bind fun token other alike => ?_
  rw [alike.kind]
  cases binaryOp? level token.kind with
  | none => exact .pure rfl
  | some op =>
      refine Coupled.descend.bind fun _ => .advance_bind fun _ _ _ => ?_
      exact coupled.bind fun right => .pure (by simp [mapStep, Expr.relocate])

theorem coupled_leftAssoc (level : BinaryOp.Level) :
    Coupled runs (Expr.relocate runs.move) (leftAssoc runs.limit level operand)
      (leftAssoc runs.otherLimit level otherOperand) :=
  .levelled (coupled.bind fun _ => .iterate (coupled_operatorRound coupled level)
    (progressive_operatorRound coupled.forward.reads) _)

theorem coupled_binary (levels : List BinaryOp.Level) :
    Coupled runs (Expr.relocate runs.move) (binary runs.limit operand levels)
      (binary runs.otherLimit otherOperand levels) := by
  induction levels with
  | nil => exact coupled
  | cons level levels induction => exact coupled_leftAssoc induction level

end

section

variable {primary otherPrimary : Parser Expr}
  (coupled : Coupled runs (Expr.relocate runs.move) primary otherPrimary)

include coupled

theorem coupled_unaryOver {operand otherOperand : Parser Expr}
    (coupledOperand : Coupled runs (Expr.relocate runs.move) operand otherOperand) :
    Coupled runs (Expr.relocate runs.move) (unaryOver primary operand)
      (unaryOver otherPrimary otherOperand) := by
  refine .peek_bind fun token other alike => ?_
  rw [alike.kind]
  cases unaryOp? token.kind with
  | none => exact coupled
  | some op =>
      refine .advance_bind fun _ _ _ => coupledOperand.bind fun value => .pure ?_
      rw [alike.pos, Expr.relocate]

omit coupled in
theorem unaryWithin_eq (limit levels : Nat) :
    unaryWithin limit primary levels =
      unaryOver primary (below limit (unaryWithin limit primary) levels) := by
  cases levels <;> rfl

theorem coupled_unaryWithin (levels : Nat) :
    Coupled runs (Expr.relocate runs.move) (unaryWithin runs.limit primary levels)
      (unaryWithin runs.otherLimit otherPrimary (levels + runs.extra)) := by
  induction levels using Nat.strongRecOn with
  | ind levels induction =>
      rw [unaryWithin_eq, unaryWithin_eq]
      exact coupled_unaryOver coupled (.below induction)

end

/-! Expressions inside expressions. -/

section

variable {expr otherExpr : Parser Expr}
  (coupled : Coupled runs (Expr.relocate runs.move) expr otherExpr)

include coupled

theorem coupled_access? (object : Expr) :
    Coupled runs (Option.map (Expr.relocate runs.move)) (access? expr object)
      (access? otherExpr (object.relocate runs.move)) := by
  refine .peek_bind fun token other alike => ?_
  rw [alike.kind]
  split
  · refine .advance_bind fun _ _ _ => Coupled.ident.bind fun name => .pure ?_
    simp [Expr.relocate, Ident.relocate]
  · refine .advance_bind fun _ _ _ => coupled.bind fun index => ?_
    exact .consume_bind fun _ _ _ _ => .pure (by simp [Expr.relocate])
  · refine .advance_bind fun _ _ _ => (coupled.closedList _).bind fun list => .pure ?_
    simp [Expr.relocate]
  · exact .pure rfl

theorem coupled_accessRound (object : Expr) :
    Coupled runs (mapStep (Expr.relocate runs.move)) (accessRound runs.limit expr object)
      (accessRound runs.otherLimit otherExpr (object.relocate runs.move)) := by
  refine (coupled_access? coupled object).bind fun result => ?_
  cases result with
  | none => exact .pure rfl
  | some value => exact Coupled.descend.bind fun _ => .pure rfl

theorem coupled_parenthesized {pos otherPos : Position} (moved : otherPos = runs.move pos) :
    Coupled runs (Expr.relocate runs.move) (parenthesized expr pos)
      (parenthesized otherExpr otherPos) := by
  refine (coupled.closedList _).bind fun list => ?_
  match list with
  | ([], comma) => exact .pure (by simp [moved, Expr.relocate])
  | ([inner], false) => exact .pure rfl
  | ([inner], true) => exact .pure (by simp [moved, Expr.relocate])
  | (first :: second :: elements, comma) => exact .pure (by simp [moved, Expr.relocate])

theorem coupled_property :
    Coupled runs (Prod.map id (Expr.relocate runs.move)) (property expr) (property otherExpr) :=
  Coupled.ident.bind fun _ => .consume_bind fun _ _ _ _ => coupled.bind fun _ => .pure rfl

variable (reads : Reads expr (Expr.Derives .expr))

include reads

theorem coupled_accesses (root : Expr) :
    Coupled runs (Expr.relocate runs.move) (accesses runs.limit expr root)
      (accesses runs.otherLimit otherExpr (root.relocate runs.move)) :=
  .levelled (.iterate (coupled_accessRound coupled) (progressive_accessRound reads) root)

theorem coupled_primary :
    Coupled runs (Expr.relocate runs.move) (primary runs.limit expr)
      (primary runs.otherLimit otherExpr) := by
  refine .advance_bind fun token other alike => ?_
  rw [alike.kind, alike.pos]
  split
  · next isNumber => exact .pure (by rw [alike.text (by rw [isNumber]; rfl), Expr.relocate])
  · next isString => exact .pure (by rw [alike.stringValue isString, Expr.relocate])
  · exact .pure rfl
  · exact .pure rfl
  · exact (coupled.closedList _).bind fun list => .pure (by simp [Expr.relocate])
  · refine ((coupled_property coupled).closedList _).bind fun list => .pure ?_
    simp [Expr.relocate]
  · next isName =>
      rw [alike.text (by rw [isName]; rfl)]
      exact coupled_accesses coupled reads (.ident token.pos token.text)
  · exact coupled_parenthesized coupled rfl
  · exact .fail rfl _

theorem coupled_ternary :
    Coupled runs (Expr.relocate runs.move) (ternary runs.limit expr)
      (ternary runs.otherLimit otherExpr) := by
  have operand := coupled_unaryWithin (coupled_primary coupled reads) runs.limit
  refine (coupled_binary operand _).bind fun condition => ?_
  refine (Coupled.take _).bind fun _ => .ite (fun _ => ?_) fun _ => .pure rfl
  refine coupled.bind fun yes => .consume_bind fun _ _ _ _ => coupled.bind fun no => .pure ?_
  simp [Expr.relocate]

end

theorem exprWithin_eq (limit levels : Nat) :
    exprWithin limit levels =
      below limit (fun level => ternary limit (exprWithin limit level)) levels := by
  cases levels <;> rfl

theorem coupled_exprWithin (levels : Nat) :
    Coupled runs (Expr.relocate runs.move) (exprWithin runs.limit levels)
      (exprWithin runs.otherLimit (levels + runs.extra)) := by
  induction levels using Nat.strongRecOn with
  | ind levels induction =>
      rw [exprWithin_eq, exprWithin_eq]
      exact .below fun level smaller =>
        coupled_ternary (induction level smaller) (reads_exprWithin _ _)

theorem advancing_expr :
    Advancing runs (Expr.relocate runs.move) (expr runs.limit) (expr runs.otherLimit) where
  toCoupled := coupled_exprWithin runs.limit
  passes := (reads_exprWithin _ _).mono fun _ _ derives => derives.ne_nil

theorem coupled_typeName : Coupled runs id (typeName runs.limit) (typeName runs.otherLimit) :=
  coupled_typeWithin runs.limit

end Covenant.Parser
