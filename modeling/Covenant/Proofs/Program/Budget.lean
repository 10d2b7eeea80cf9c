import Covenant.Proofs.Parser.Budget
import Covenant.Proofs.Program.Coupling

/-! No routine opens more levels than it has tokens to pay for. -/

namespace Covenant.Parser

variable {limit : Nat}

/-! Types. -/

theorem affords_arrayType {levels spare : Nat} :
    Affords limit levels spare (fun _ => 0) arrayType := by
  refine Affords.ident.seq fun _ => .iterate (fun type => ?_) _
  exact .take_bind (by simp) (.consume_bind (by simp) fun _ => .pure _) (.pure _)

theorem affords_mappingOf {levels : Nat} {value : Parser TypeName}
    (affords : Affords limit levels 1 (fun _ => 0) value) :
    Affords limit levels 0 (fun _ => 0) (mappingOf value) := by
  refine Affords.advance.seq fun _ => .consume_bind (by simp) fun _ => ?_
  refine Affords.ident.seq fun _ => .consume_bind (by simp) fun _ => ?_
  exact (affords.spared (by omega)).seq fun _ => .consume_bind (by simp) fun _ => .pure _

theorem affords_typeWithin (levels : Nat) :
    Affords limit levels 1 (fun _ => 0) (typeWithin limit levels) := by
  induction levels using Nat.strongRecOn with
  | ind levels induction =>
      rw [typeWithin_eq]
      refine (Affords.isWord _).seq fun _ => .ite ?_ affords_arrayType
      exact .below fun level smaller => affords_mappingOf (induction level smaller)

/-! Expressions. -/

section

variable {levels : Nat} {operand : Parser Expr}

theorem affords_operatorRound (affords : Affords limit levels 0 (fun _ => 1) operand)
    (level : BinaryOp.Level) (left : Expr) :
    Affords limit levels 1 (fun _ => 0) (operatorRound limit level operand left) := by
  refine .peek_bind fun token => ?_
  cases found : binaryOp? level token.kind with
  | none => exact .of_affords (.pure _)
  | some op =>
      have isSign := (binaryOp?_eq_some_iff.1 found).1
      refine .descend_bind (.advance_bind (by simp [isSign]) ?_)
      exact (affords.spared (Nat.zero_le 1)).seq fun _ => .pure _

theorem affords_binary (affords : Affords limit levels 0 (fun _ => 1) operand)
    (looser : List BinaryOp.Level) :
    Affords limit levels 0 (fun _ => 1) (binary limit operand looser) := by
  induction looser with
  | nil => exact affords
  | cons level looser induction =>
      apply Affords.levelled
      exact induction.earn fun _ => .iterate (affords_operatorRound induction level) _

theorem affords_unaryOver {primary : Parser Expr}
    (affords : Affords limit levels 0 (fun _ => 1) primary)
    (affordsOperand : Affords limit levels 1 (fun _ => 1) operand) :
    Affords limit levels 0 (fun _ => 1) (unaryOver primary operand) := by
  refine .peek_bind fun token => ?_
  cases found : unaryOp? token.kind with
  | none => exact .of_affords affords
  | some op =>
      have isSign := unaryOp?_eq_some_iff.1 found
      exact .advance_bind (by simp [isSign]) (affordsOperand.seq fun _ => .pure _)

/-- As many signs can stand in front of an operand as levels are left, or more. -/
theorem affords_unaryWithin {primary : Parser Expr}
    (affords : Affords limit levels 0 (fun _ => 1) primary) {signs : Nat}
    (enough : levels ≤ signs) :
    Affords limit levels 0 (fun _ => 1) (unaryWithin limit primary signs) := by
  induction signs generalizing levels with
  | zero =>
      obtain rfl := Nat.le_zero.1 enough
      exact affords_unaryOver affords .exhausted
  | succ signs induction =>
      apply affords_unaryOver affords
      cases levels with
      | zero => exact .exhausted
      | succ level =>
          have deeper : Affords limit level 0 (fun _ => 1) primary :=
            affords.mono (Nat.le_succ level) (Nat.le_refl 0) fun _ => Nat.le_refl 1
          exact (induction deeper (Nat.le_of_succ_le_succ enough)).nested

end

section

variable {levels : Nat} {expr : Parser Expr} (affords : Affords limit levels 1 (fun _ => 1) expr)

include affords

/-- An access passes a token. -/
theorem affords_access? (object : Expr) :
    Affords limit levels 1 (fun result => if result.isSome then 1 else 0)
      (access? expr object) := by
  have one (result : Option Expr) : (if result.isSome then 1 else 0) ≤ 0 + 1 := by
    cases result <;> simp
  have later := affords.spared (Nat.le_succ 1)
  refine .peek_bind fun token => ?_
  split
  · next isDot =>
      refine AffordsAt.less (.advance_bind (by simp [isDot]) ?_) one
      exact Affords.ident.seq fun _ => .pure _
  · next isOpening =>
      refine AffordsAt.less (.advance_bind (by simp [isOpening]) ?_) one
      exact later.seq fun _ => .consume_bind (by simp) fun _ => .pure _
  · next isOpening =>
      refine AffordsAt.less (.advance_bind (by simp [isOpening]) ?_) one
      exact (later.closedList _).seq fun _ => .pure _
  · exact fun _ _ budget => Paid.refl budget.ended

theorem affords_accessRound (object : Expr) :
    Affords limit levels 1 (fun _ => 0) (accessRound limit expr object) := by
  intro state budget
  have afforded := affords_access? affords object budget
  change Afforded _ state (EStateM.bind _ _ state)
  rw [EStateM.bind]
  cases ran : access? expr object state with
  | error error after =>
      rw [ran] at afforded
      exact afforded
  | ok result after =>
      rw [ran] at afforded
      cases result with
      | none => exact afforded
      | some value =>
          -- The token passed for the access pays for the level that is opened after it.
          obtain ⟨rest, depth⟩ := after
          have room : depth < limit := (budget.of_paid afforded).depth_lt
          obtain ⟨ended, deeper, gained⟩ := afforded
          change Afforded _ state
            ((descend limit >>= fun _ => pure (ForInStep.yield value)) ⟨rest, depth⟩)
          rw [bind_of_ok (descend_of_lt room)]
          exact ⟨ended, Nat.le_succ_of_le deeper, by simp at gained ⊢; omega⟩

theorem affords_property : Affords limit levels 1 (fun _ => 0) (property expr) :=
  Affords.ident.seq fun _ => .consume_bind (by simp) fun _ =>
    (affords.spared (Nat.le_succ 1)).seq fun _ => .pure _

theorem affords_parenthesized (pos : Position) :
    Affords limit levels 1 (fun _ => 0) (parenthesized expr pos) := by
  refine (affords.closedList _).seq fun list => ?_
  split <;> exact .pure _

theorem affords_primary : Affords limit levels 0 (fun _ => 1) (primary limit expr) := by
  refine .advance_bind (fun token _ => ?_) fun token ended => ?_
  · split
    · exact .pure _
    · exact .pure _
    · exact .pure _
    · exact .pure _
    · exact (affords.closedList _).seq fun _ => .pure _
    · exact ((affords_property affords).closedList _).seq fun _ => .pure _
    · exact .levelled (.iterate (affords_accessRound affords) _)
    · exact affords_parenthesized affords token.pos
    · exact .fail _ _
  · rw [ended]
    exact .fail _ _

theorem affords_ternary (fewer : levels ≤ limit) :
    Affords limit levels 0 (fun _ => 1) (ternary limit expr) := by
  have operand := affords_unaryWithin (affords_primary affords) fewer
  refine (affords_binary operand _).earn fun _ => ?_
  refine .take_bind (by simp) ?_ (.pure _)
  have later := affords.spared (Nat.le_succ 1)
  refine later.seq fun _ => .consume_bind (by simp) fun _ => ?_
  exact (later.spared (Nat.le_succ 2)).seq fun _ => .pure _

end

theorem affords_exprWithin {levels : Nat} (fewer : levels ≤ limit) :
    Affords limit levels 1 (fun _ => 1) (exprWithin limit levels) := by
  induction levels with
  | zero => exact .exhausted
  | succ level induction =>
      have inner := induction (Nat.le_of_succ_le fewer)
      exact (affords_ternary inner (Nat.le_of_succ_le fewer)).nested

/-- An expression can be read wherever no more levels are needed than the limit allows. -/
theorem affords_expr {levels : Nat} (fewer : levels ≤ limit) :
    Affords limit levels 1 (fun _ => 1) (expr limit) :=
  (affords_exprWithin (Nat.le_refl limit)).mono fewer (Nat.le_refl 1) fun _ => Nat.le_refl 1

/-! Statements. -/

section

variable {levels : Nat} {expr : Parser Expr} {block : Parser (List Stmt)}
  (affordsExpr : Affords limit levels 1 (fun _ => 1) expr)
  (affordsBlock : Affords limit levels 1 (fun _ => 0) block)

include affordsExpr affordsBlock

theorem affords_branchOver {branch : Parser Stmt}
    (affords : Affords limit levels 2 (fun _ => 0) branch) :
    Affords limit levels 1 (fun _ => 0) (branchOver expr block branch) := by
  have later := affordsBlock.spared (Nat.le_succ 1)
  refine .consume_bind (by simp) fun _ => ?_
  refine (affordsExpr.spared (Nat.le_succ 1)).seq fun _ => later.seq fun _ => ?_
  refine .take_bind (by simp) (.peek_bind fun next => ?_) (.pure _)
  split
  · exact .of_affords ((later.spared (Nat.le_succ 2)).seq fun _ => .pure _)
  · exact .of_affords ((affords.spared (Nat.le_succ 2)).seq fun _ => .pure _)
  · exact .of_affords (.fail _ _)

theorem affords_branchWithin {chain : Nat} (enough : levels ≤ chain) :
    Affords limit levels 1 (fun _ => 0) (branchWithin limit expr block chain) := by
  induction chain generalizing levels with
  | zero =>
      obtain rfl := Nat.le_zero.1 enough
      exact affords_branchOver affordsExpr affordsBlock .exhausted
  | succ chain induction =>
      apply affords_branchOver affordsExpr affordsBlock
      cases levels with
      | zero => exact .exhausted
      | succ level =>
          have expr := affordsExpr.mono (Nat.le_succ level) (Nat.le_refl 1) fun _ => Nat.le_refl 1
          have block := affordsBlock.mono (Nat.le_succ level) (Nat.le_refl 1) fun _ => Nat.le_refl 0
          exact (induction expr block (Nat.le_of_succ_le_succ enough)).nested

theorem affords_countingLoop : Affords limit levels 1 (fun _ => 0) (countingLoop expr block) := by
  have failFor {spare : Nat} (part : ForPart) :
      Affords limit levels spare (fun _ => 0) (failFor part : Parser Stmt) :=
    .peek_bind fun _ => .of_affords (.fail _ _)
  have laterExpr := affordsExpr.spared (Nat.le_succ 1)
  have laterBlock := affordsBlock.spared (Nat.le_succ 1)
  refine .consume_bind (by simp) fun _ => .peek_bind fun _ => .of_affords ?_
  refine .ite (failFor _) (Affords.advance.seq fun _ => ?_)
  refine (Affords.take _).seq fun _ => ?_
  refine .ite (failFor _) (laterExpr.seq fun _ => (Affords.takeWord _).seq fun _ => ?_)
  refine .ite (failFor _) (laterExpr.seq fun _ => (Affords.takeWord _).seq fun _ => ?_)
  refine .ite ?_ ?_
  · exact laterExpr.seq fun _ => laterBlock.seq fun _ => .pure _
  · exact (Affords.pure _).seq fun _ => laterBlock.seq fun _ => .pure _

theorem affords_simpleStmt : Affords limit levels 1 (fun _ => 0) (simpleStmt expr block) := by
  refine .peek_bind fun token => ?_
  split
  · exact .of_affords (Affords.advance.seq fun _ => affordsExpr.seq fun _ =>
      affordsBlock.seq fun _ => .pure _)
  · refine .of_affords (Affords.advance.seq fun _ => ?_)
    refine (Affords.peek_bind fun _ => .of_affords (.pure _)).seq fun _ => ?_
    exact .ite (.pure _) (affordsExpr.seq fun _ => .pure _)
  · exact .of_affords (Affords.advance.seq fun _ => .pure _)
  · exact .of_affords (Affords.advance.seq fun _ => .pure _)
  · refine .of_affords (affordsExpr.seq fun _ => .take_bind (by simp) ?_ (.pure _))
    exact (affordsExpr.spared (Nat.le_succ 1)).seq fun _ => .pure _

end

theorem affords_stmt {levels : Nat} {block : Parser (List Stmt)} (fewer : levels ≤ limit)
    (affords : Affords limit levels 1 (fun _ => 0) block) :
    Affords limit levels 1 (fun _ => 0) (stmt limit block) := by
  have affordsExpr := affords_expr fewer
  refine .peek_bind fun token => ?_
  split
  · exact .of_affords (affords_branchWithin affordsExpr affords fewer)
  · exact .of_affords (affords_countingLoop affordsExpr affords)
  · refine .of_affords ((affords_simpleStmt affordsExpr affords).seq fun _ => ?_)
    exact .take_bind (by simp) (.pure _) (.pure _)

/-- The opening brace of a block pays for its level. -/
theorem affords_blockWithin {levels : Nat} (fewer : levels ≤ limit) :
    Affords limit levels 1 (fun _ => 0) (blockWithin limit levels) := by
  have blockOf {levels : Nat} {statements : Parser (List Stmt)}
      (affords : Affords limit levels 2 (fun _ => 0) statements) :
      Affords limit levels 1 (fun _ => 0) (blockOf statements) :=
    .consume_bind (by simp) fun _ => affords.seq fun _ => .consume_bind (by simp) fun _ => .pure _
  induction levels with
  | zero => exact blockOf .exhausted
  | succ level induction =>
      have shallower := Nat.le_of_succ_le fewer
      exact blockOf ((affords_stmt shallower (induction shallower)).many _).nested

/-! Declarations. -/

theorem affords_typedName {spare : Nat} :
    Affords limit limit (spare + 1) (fun _ => 0) (typedName limit) := by
  refine Affords.ident.seq fun _ => .consume_bind (by simp) fun _ => ?_
  exact ((affords_typeWithin limit).spared (by omega)).seq fun _ => .pure _

theorem affords_storageLocation? {levels spare : Nat} :
    Affords limit levels spare (fun _ => 0) storageLocation? := by
  refine (Affords.take _).seq fun _ => .ite (.pure _) ((Affords.take _).seq fun _ => ?_)
  exact .ite (.pure _) (.pure _)

theorem affords_stateVar : Affords limit limit 1 (fun _ => 0) (stateVar limit) :=
  affords_typedName.seq fun _ => affords_storageLocation?.seq fun _ =>
    .consume_bind (by simp) fun _ => .pure _

theorem affords_field {spare : Nat} :
    Affords limit limit (spare + 1) (fun _ => 0) (field limit) :=
  affords_typedName.seq fun _ => .consume_bind (by simp) fun _ => .pure _

theorem affords_struct : Affords limit limit 1 (fun _ => 0) (struct limit) := by
  refine .consume_bind (by simp) fun _ => Affords.ident.seq fun _ => ?_
  refine .consume_bind (by simp) fun _ => (affords_field.many _).seq fun _ => ?_
  exact .consume_bind (by simp) fun _ => .pure _

theorem affords_parameter {spare : Nat} :
    Affords limit limit (spare + 1) (fun _ => 0) (parameter limit) := by
  refine affords_typedName.seq fun _ => .take_bind (by simp) ?_ (.pure _)
  exact ((affords_expr (Nat.le_refl limit)).spared (by omega)).seq fun _ => .pure _

theorem affords_modifiers {levels spare : Nat} :
    Affords limit levels spare (fun _ => 0) modifiers := by
  refine .iterate (fun modifiers => .peek_bind fun token => .of_affords ?_) _
  cases modifier? token.kind with
  | none => exact .pure _
  | some modifier => exact .ite (.fail _ _) (Affords.advance.seq fun _ => .pure _)

theorem affords_returnType? {levels spare : Nat} :
    Affords limit levels spare (fun _ => 0) returnType? := by
  refine .take_bind (by simp) (.take_bind (by simp) ?_ ?_) (.pure _)
  · exact (Affords.ident.closedList _).seq fun _ => .pure _
  · exact Affords.ident.seq fun _ => .pure _

theorem affords_function : Affords limit limit 1 (fun _ => 0) (function limit) := by
  refine .consume_bind (by simp) fun _ => Affords.ident.seq fun _ => ?_
  refine .consume_bind (by simp) fun _ => (affords_parameter.closedList _).seq fun _ => ?_
  refine affords_modifiers.seq fun _ => affords_returnType?.seq fun _ => ?_
  exact ((affords_blockWithin (Nat.le_refl limit)).spared (by omega)).seq fun _ => .pure _

theorem affords_member : Affords limit limit 1 (fun _ => 0) (member limit) := by
  refine .peek_bind fun token => ?_
  split
  · exact .of_affords (affords_function.seq fun _ => .pure _)
  · exact .of_affords (affords_struct.seq fun _ => .pure _)
  · exact .of_affords (affords_stateVar.seq fun _ => .pure _)

theorem affords_contract : Affords limit limit 1 (fun _ => 0) (contract limit) := by
  refine .consume_bind (by simp) fun _ => Affords.ident.seq fun _ => ?_
  refine .consume_bind (by simp) fun _ => ?_
  refine Affords.seq ((affords_member.spared (by omega)).many _) fun _ => ?_
  exact .consume_bind (by simp) fun _ => .pure _

/-! Whole inputs. -/

theorem affords_consume_eof {levels spare : Nat} :
    Affords limit levels spare (fun _ => 0) (consume .eof) := by
  refine .peek_bind fun token => .of_affords (.ite .advance (.fail _ _))

theorem affords_program : Affords limit limit 1 (fun _ => 0) (program limit) := by
  refine (affords_contract.many _).seq fun _ => affords_consume_eof.seq fun _ => ?_
  exact .ite (.fail _ _) (.pure _)

theorem affords_wholeExpr : Affords limit limit 1 (fun _ => 0) (wholeExpr limit) :=
  (affords_expr (Nat.le_refl limit)).seq fun _ => affords_consume_eof.seq fun _ => .pure _

end Covenant.Parser
