import Covenant.Program.Parser
import Covenant.Proofs.Expr.Coupling

/-! The routines for statements and declarations keep in step. -/

namespace Covenant.Parser

variable {runs : Comparison}

/-! Statements. -/

theorem coupled_blockOf {statements otherStatements : Parser (List Stmt)}
    (coupled : Coupled runs (List.map (Stmt.relocate runs.move)) statements otherStatements) :
    Coupled runs (List.map (Stmt.relocate runs.move)) (blockOf statements)
      (blockOf otherStatements) :=
  .consume_bind fun _ _ _ _ => coupled.bind fun _ => .consume_bind fun _ _ _ _ => .pure rfl

theorem coupled_failFor {α : Type} {change : α → α} (part : ForPart) :
    Coupled runs change (failFor part) (failFor part) := by
  refine .peek_bind fun token other alike => ?_
  rw [alike.kind]
  exact .fail alike.pos _

theorem coupled_atStmtEnd : Coupled runs id atStmtEnd atStmtEnd :=
  .peek_bind fun _ _ alike => .pure (by rw [alike.kind]; rfl)

section

variable {expr otherExpr : Parser Expr} {block otherBlock : Parser (List Stmt)}
  (advancingExpr : Advancing runs (Expr.relocate runs.move) expr otherExpr)
  (coupledBlock : Coupled runs (List.map (Stmt.relocate runs.move)) block otherBlock)

include advancingExpr

theorem advancing_exprStmt {pos otherPos : Position} (moved : otherPos = runs.move pos) :
    Advancing runs (Stmt.relocate runs.move) (exprStmt expr pos) (exprStmt otherExpr otherPos) := by
  refine advancingExpr.bind fun target => (Coupled.take _).bind fun _ => ?_
  refine .ite (fun _ => advancingExpr.toCoupled.bind fun value => .pure ?_) fun _ => .pure ?_
  · simp [moved, Stmt.relocate, Assignment.relocate]
  · simp [moved, Stmt.relocate]

include coupledBlock

theorem advancing_branchOver {branch otherBranch : Parser Stmt}
    (coupled : Coupled runs (Stmt.relocate runs.move) branch otherBranch) :
    Advancing runs (Stmt.relocate runs.move) (branchOver expr block branch)
      (branchOver otherExpr otherBlock otherBranch) := by
  refine .consume_bind (by simp) fun token other _ alike => ?_
  refine advancingExpr.toCoupled.bind fun condition => coupledBlock.bind fun yes => ?_
  refine (Coupled.take _).bind fun _ => .ite (fun _ => ?_) fun _ => ?_
  · refine .peek_bind fun next otherNext alikeNext => ?_
    rw [alikeNext.kind]
    split
    · exact coupledBlock.bind fun no => .pure (by simp [alike.pos, Stmt.relocate])
    · exact coupled.bind fun no => .pure (by simp [alike.pos, Stmt.relocate])
    · exact .fail alikeNext.pos _
  · exact .pure (by simp [alike.pos, Stmt.relocate])

omit advancingExpr coupledBlock in
theorem branchWithin_eq (limit levels : Nat) :
    branchWithin limit expr block levels =
      branchOver expr block (below limit (branchWithin limit expr block) levels) := by
  cases levels <;> rfl

theorem advancing_branchWithin (levels : Nat) :
    Advancing runs (Stmt.relocate runs.move) (branchWithin runs.limit expr block levels)
      (branchWithin runs.otherLimit otherExpr otherBlock (levels + runs.extra)) := by
  induction levels using Nat.strongRecOn with
  | ind levels induction =>
      rw [branchWithin_eq, branchWithin_eq]
      exact advancing_branchOver advancingExpr coupledBlock
        (.below fun level smaller => (induction level smaller).toCoupled)

theorem advancing_countingLoop :
    Advancing runs (Stmt.relocate runs.move) (countingLoop expr block)
      (countingLoop otherExpr otherBlock) := by
  have coupledExpr := advancingExpr.toCoupled
  refine .consume_bind (by simp) fun token other _ alike => ?_
  refine .peek_bind fun name otherName alikeName => ?_
  rw [alikeName.kind]
  refine .ite (fun _ => coupled_failFor _) fun isName => .advance_bind fun _ _ _ => ?_
  rw [alikeName.text (by rw [Classical.not_not.1 isName]; rfl), alikeName.pos]
  refine (Coupled.take _).bind fun _ => .ite (fun _ => coupled_failFor _) fun _ => ?_
  refine coupledExpr.bind fun start => ?_
  refine (Coupled.takeWord _).bind fun _ => .ite (fun _ => coupled_failFor _) fun _ => ?_
  refine coupledExpr.bind fun bound => (Coupled.takeWord _).bind fun _ => ?_
  have one : Coupled runs (Expr.relocate runs.move)
      (pure (.literal name.pos (.number "1")))
      (pure (.literal (runs.move name.pos) (.number "1"))) := .pure rfl
  refine .ite (fun _ => coupledExpr.bind fun step => ?_) fun _ => one.bind fun step => ?_
  all_goals
    refine coupledBlock.bind fun body => .pure ?_
    simp [alike.pos, Stmt.relocate, Stmt.countBy, Stmt.counterExpr, Ident.relocate,
      Assignment.relocate, Expr.relocate]

theorem coupled_simpleStmt :
    Coupled runs (Stmt.relocate runs.move) (simpleStmt expr block)
      (simpleStmt otherExpr otherBlock) := by
  have coupledExpr := advancingExpr.toCoupled
  refine .peek_bind fun token other alike => ?_
  rw [alike.kind, alike.pos]
  split
  · refine .advance_bind fun _ _ _ => coupledExpr.bind fun condition => ?_
    exact coupledBlock.bind fun body => .pure (by simp [Stmt.relocate])
  · refine .advance_bind fun _ _ _ => coupled_atStmtEnd.bind fun _ => .ite (fun _ => .pure rfl) ?_
    exact fun _ => coupledExpr.bind fun value => .pure rfl
  · exact .advance_bind fun _ _ _ => .pure rfl
  · exact .advance_bind fun _ _ _ => .pure rfl
  · exact (advancing_exprStmt advancingExpr rfl).toCoupled

/-- The words that start a statement are passed, and so is an expression. -/
theorem passes_simpleStmt : Reads (simpleStmt expr block) fun passed _ => passed ≠ [] := by
  refine .peek_bind fun token => ?_
  split
  · next isWhile =>
      refine .advance_bind (by simp [isWhile]) (Reads.mono (Forward.reads ?_) (by simp))
      exact advancingExpr.forward.bind fun _ => coupledBlock.forward.bind fun _ => .pure _
  · next isReturn =>
      refine .advance_bind (by simp [isReturn]) (Reads.mono (Forward.reads ?_) (by simp))
      refine (Forward.peek.bind fun _ => .pure _).bind fun ends => ?_
      cases ends with
      | true => exact .pure _
      | false => exact advancingExpr.forward.bind fun _ => .pure _
  · next isBreak => exact .advance_bind (by simp [isBreak]) (.pure (by simp))
  · next isContinue => exact .advance_bind (by simp [isContinue]) (.pure (by simp))
  · exact .of_reads (advancing_exprStmt advancingExpr rfl).passes

end

section

variable {block otherBlock : Parser (List Stmt)}
  (coupled : Coupled runs (List.map (Stmt.relocate runs.move)) block otherBlock)

include coupled

theorem advancing_stmt :
    Advancing runs (Stmt.relocate runs.move) (stmt runs.limit block)
      (stmt runs.otherLimit otherBlock) := by
  refine .peek_bind fun token other alike => ?_
  rw [alike.kind]
  split
  · exact advancing_branchWithin advancing_expr coupled runs.limit
  · exact advancing_countingLoop advancing_expr coupled
  · have simple : Advancing runs (Stmt.relocate runs.move) (simpleStmt _ block) _ :=
      ⟨coupled_simpleStmt advancing_expr coupled, passes_simpleStmt advancing_expr coupled⟩
    exact simple.bind fun _ => (Coupled.take _).bind fun _ => .pure rfl

end

theorem blockWithin_eq (limit levels : Nat) :
    blockWithin limit levels = blockOf (below limit
      (fun level => many (.symbol .rbrace) (stmt limit (blockWithin limit level))) levels) := by
  cases levels <;> rfl

theorem coupled_blockWithin (levels : Nat) :
    Coupled runs (List.map (Stmt.relocate runs.move)) (blockWithin runs.limit levels)
      (blockWithin runs.otherLimit (levels + runs.extra)) := by
  induction levels using Nat.strongRecOn with
  | ind levels induction =>
      rw [blockWithin_eq, blockWithin_eq]
      exact coupled_blockOf (.below fun level smaller =>
        (advancing_stmt (induction level smaller)).many _)

theorem coupled_block :
    Coupled runs (List.map (Stmt.relocate runs.move)) (block runs.limit) (block runs.otherLimit) :=
  coupled_blockWithin runs.limit

/-! Declarations. -/

theorem coupled_storageLocation? : Coupled runs id storageLocation? storageLocation? := by
  refine (Coupled.take _).bind fun _ => .ite (fun _ => .pure rfl) fun _ => ?_
  exact (Coupled.take _).bind fun _ => .ite (fun _ => .pure rfl) fun _ => .pure rfl

theorem advancing_typedName :
    Advancing runs (Prod.map (Ident.relocate runs.move) id) (typedName runs.limit)
      (typedName runs.otherLimit) :=
  Advancing.ident.bind fun _ => .consume_bind fun _ _ _ _ =>
    coupled_typeName.bind fun _ => .pure rfl

theorem advancing_stateVar :
    Advancing runs (StateVar.relocate runs.move) (stateVar runs.limit)
      (stateVar runs.otherLimit) :=
  advancing_typedName.bind fun _ => coupled_storageLocation?.bind fun _ =>
    .consume_bind fun _ _ _ _ => .pure rfl

theorem advancing_field :
    Advancing runs (Field.relocate runs.move) (field runs.limit) (field runs.otherLimit) :=
  advancing_typedName.bind fun _ => .consume_bind fun _ _ _ _ => .pure rfl

theorem advancing_struct :
    Advancing runs (Struct.relocate runs.move) (struct runs.limit) (struct runs.otherLimit) := by
  refine .consume_bind (by simp) fun _ _ _ _ => Coupled.ident.bind fun _ => ?_
  refine .consume_bind fun _ _ _ _ => (advancing_field.many _).bind fun _ => ?_
  exact .consume_bind fun _ _ _ _ => .pure rfl

theorem coupled_parameter :
    Coupled runs (Parameter.relocate runs.move) (parameter runs.limit)
      (parameter runs.otherLimit) := by
  refine advancing_typedName.toCoupled.bind fun _ => (Coupled.take _).bind fun _ => ?_
  exact .ite (fun _ => advancing_expr.toCoupled.bind fun _ => .pure rfl) fun _ => .pure rfl

theorem coupled_modifierRound (modifiers : Modifiers) :
    Coupled runs (mapStep id) (modifierRound modifiers) (modifierRound modifiers) := by
  refine .peek_bind fun token other alike => ?_
  rw [alike.kind]
  cases modifier? token.kind with
  | none => exact .pure rfl
  | some modifier =>
      exact .ite (fun _ => .fail alike.pos _) fun _ => .advance_bind fun _ _ _ => .pure rfl

theorem progressive_modifierRound : Progressive modifierRound := by
  refine fun modifiers => .peek_bind fun token => ?_
  cases found : modifier? token.kind with
  | none => exact .of_reads (.pure trivial)
  | some modifier =>
      have going : token.kind ≠ .eof := by
        intro ended
        simp [ended, modifier?] at found
      simp only
      split
      · exact .of_reads (.throw _)
      · exact .advance_bind going (.pure (by simp [Round]))

theorem coupled_modifiers : Coupled runs id modifiers modifiers :=
  .iterate coupled_modifierRound progressive_modifierRound _

theorem coupled_returnType? : Coupled runs id returnType? returnType? := by
  refine (Coupled.take _).bind fun _ => .ite (fun _ => ?_) fun _ => .pure rfl
  refine (Coupled.take _).bind fun _ => .ite (fun _ => ?_) fun _ => ?_
  · refine (Coupled.ident.closedList _).bind fun list => .pure ?_
    simp [Ident.relocate]
  · exact Coupled.ident.bind fun _ => .pure rfl

theorem advancing_function :
    Advancing runs (Function.relocate runs.move) (function runs.limit)
      (function runs.otherLimit) := by
  refine .consume_bind (by simp) fun _ _ _ _ => Coupled.ident.bind fun _ => ?_
  refine .consume_bind fun _ _ _ _ => (coupled_parameter.closedList _).bind fun _ => ?_
  refine coupled_modifiers.bind fun _ => coupled_returnType?.bind fun _ => ?_
  exact coupled_block.bind fun _ => .pure rfl

namespace Member

def relocate (move : Position → Position) : Member → Member
  | stateVar value => .stateVar (value.relocate move)
  | function value => .function (value.relocate move)
  | struct value => .struct (value.relocate move)

variable (move : Position → Position) (member : Member)

theorem stateVar?_relocate :
    (member.relocate move).stateVar? = member.stateVar?.map (StateVar.relocate move) := by
  cases member <;> rfl

theorem function?_relocate :
    (member.relocate move).function? = member.function?.map (Function.relocate move) := by
  cases member <;> rfl

theorem struct?_relocate :
    (member.relocate move).struct? = member.struct?.map (Struct.relocate move) := by
  cases member <;> rfl

end Member

theorem advancing_member :
    Advancing runs (Member.relocate runs.move) (member runs.limit) (member runs.otherLimit) := by
  refine .peek_bind fun token other alike => ?_
  rw [alike.kind]
  split
  · exact advancing_function.bind fun _ => .pure rfl
  · exact advancing_struct.bind fun _ => .pure rfl
  · exact advancing_stateVar.bind fun _ => .pure rfl

/-- A contract up to its closing brace. -/
def openContract (limit : Nat) : Parser Contract := do
  let _ ← consume (.keyword .contract)
  let name ← ident
  let _ ← consume (.symbol .lbrace)
  let members ← many (.symbol .rbrace) (member limit)
  return ⟨name, members.filterMap Member.stateVar?, members.filterMap Member.function?,
    members.filterMap Member.struct?⟩

theorem contract_eq (limit : Nat) :
    contract limit = openContract limit >>= fun contract =>
      consume (.symbol .rbrace) >>= fun _ => pure contract := by
  simp only [contract, openContract, bind_assoc, pure_bind]

theorem advancing_openContract :
    Advancing runs (Contract.relocate runs.move) (openContract runs.limit)
      (openContract runs.otherLimit) := by
  refine .consume_bind (by simp) fun _ _ _ _ => Coupled.ident.bind fun _ => ?_
  refine .consume_bind fun _ _ _ _ => (advancing_member.many _).bind fun members => .pure ?_
  simp only [Contract.relocate, List.filterMap_map, List.map_filterMap, Function.comp_def,
    Member.stateVar?_relocate, Member.function?_relocate, Member.struct?_relocate]

theorem advancing_contract :
    Advancing runs (Contract.relocate runs.move) (contract runs.limit)
      (contract runs.otherLimit) := by
  rw [contract_eq, contract_eq]
  exact advancing_openContract.bind fun _ => .consume_bind fun _ _ _ _ => .pure rfl

theorem passes_contract (limit : Nat) : Reads (contract limit) fun passed _ => passed ≠ [] :=
  (@advancing_contract (.same limit)).passes

/-! Whole inputs. -/

theorem coupled_program :
    Coupled runs (Program.relocate runs.move) (program runs.limit) (program runs.otherLimit) := by
  refine (advancing_contract.many _).bind fun contracts => .consume_bind fun _ _ _ alike => ?_
  rw [List.isEmpty_map]
  exact .ite (fun _ => .fail alike.pos _) fun _ => .pure rfl

theorem coupled_wholeExpr :
    Coupled runs (Expr.relocate runs.move) (wholeExpr runs.limit) (wholeExpr runs.otherLimit) :=
  advancing_expr.toCoupled.bind fun _ => .consume_bind fun _ _ _ _ => .pure rfl

end Covenant.Parser
