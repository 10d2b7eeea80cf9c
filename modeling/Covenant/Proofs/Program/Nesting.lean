import Covenant.Proofs.Expr.Height
import Covenant.Proofs.Rules.WellFormed
import Covenant.Proofs.TypeName.Nesting

/-! How deep the parts of a program stand inside each other, if it has been read within a limit.
Blocks and mapping types open a level each; the expressions of a statement have the levels that its
blocks leave. -/

namespace Covenant

/-- The types of all that a contract declares. -/
def Contract.types (contract : Contract) : List TypeName :=
  contract.stateVars.map StateVar.type ++
    contract.functions.flatMap (fun function => function.parameters.map Parameter.type) ++
    contract.structs.flatMap (fun struct => struct.fields.map Field.type)

/-- A statement of a block, at depth one, or of a statement in it, one deeper than there. -/
inductive Stmt.At : List Stmt → Nat → Stmt → Prop where
  | here {block : List Stmt} {stmt : Stmt} : stmt ∈ block → At block 1 stmt
  | inside {block : List Stmt} {outer stmt : Stmt} {depth : Nat} :
      outer ∈ block → At outer.parts depth stmt → At block (depth + 1) stmt

namespace Parser

/-! Statements. -/

/-- A statement that could be read with `depth` levels open. The increment of a loop is one higher
than the step that it adds. -/
inductive StmtFits (limit : Nat) : Nat → Stmt → Prop where
  | intro {depth : Nat} {stmt : Stmt} : depth ≤ limit →
      (∀ expr ∈ stmt.exprs, expr.height ≤ heightWithin (limit - depth) + 1) →
      (∀ part ∈ stmt.parts, StmtFits limit (depth + 1) part) → StmtFits limit depth stmt

/-- The statements of a block that could be read with `depth` levels open. -/
def BlockFits (limit depth : Nat) (body : List Stmt) : Prop :=
  ∀ stmt ∈ body, StmtFits limit (depth + 1) stmt

theorem Fits.height_le_succ {limit depth : Nat} {expr : Expr} (fits : Fits limit depth expr) :
    expr.height ≤ heightWithin (limit - depth) + 1 :=
  Nat.le_succ_of_le fits.height

section

variable {limit : Nat} {expr : Parser Expr} {block : Parser (List Stmt)}
  (balancedExpr : Balanced expr) (balancedBlock : Balanced block)
  (yieldsExpr : ∀ depth, Yields depth expr (Fits limit depth))
  (yieldsBlock : ∀ depth, Yields depth block (BlockFits limit depth))

include balancedExpr balancedBlock yieldsExpr yieldsBlock

theorem yields_branchOver {branch : Parser Stmt} {depth : Nat} (opened : depth ≤ limit)
    (balanced : Balanced branch) (yields : Yields depth branch (StmtFits limit (depth + 1))) :
    Yields depth (branchOver expr block branch) (StmtFits limit depth) := by
  refine .skip (.consume _) fun token => ?_
  refine (yieldsExpr depth).bind balancedExpr fun condition fits => ?_
  have conditions : ∀ part ∈ [condition], part.height ≤ heightWithin (limit - depth) + 1 := by
    simpa using fits.height_le_succ
  refine (yieldsBlock depth).bind balancedBlock fun yes fitsYes => .skip (.take _) fun _ => ?_
  refine .ite (.skip .peek fun next => ?_) (.pure ⟨opened, conditions, ?_⟩)
  · split
    · refine (yieldsBlock depth).bind balancedBlock fun no fitsNo => .pure ⟨opened, conditions, ?_⟩
      exact List.forall_mem_append.2 ⟨fitsYes, fitsNo⟩
    · refine yields.bind balanced fun no fitsNo => .pure ⟨opened, conditions, ?_⟩
      exact List.forall_mem_append.2 ⟨fitsYes, by simpa using fitsNo⟩
    · exact .throw _
  · exact List.forall_mem_append.2 ⟨fitsYes, by simp⟩

theorem yields_branchWithin (chain : Nat) {depth : Nat} (opened : depth ≤ limit) :
    Yields depth (branchWithin limit expr block chain) (StmtFits limit depth) := by
  induction chain generalizing depth with
  | zero =>
      exact yields_branchOver balancedExpr balancedBlock yieldsExpr yieldsBlock opened (.throw _)
        (.throw _)
  | succ chain induction =>
      have balanced := balanced_branchWithin balancedExpr balancedBlock limit chain
      exact yields_branchOver balancedExpr balancedBlock yieldsExpr yieldsBlock opened
        (balanced.nested limit) (.nested fun room => induction room)

theorem yields_countingLoop {depth : Nat} (opened : depth ≤ limit) :
    Yields depth (countingLoop expr block) (StmtFits limit depth) := by
  have failFor (part : ForPart) :
      Yields depth (failFor part : Parser Stmt) (StmtFits limit depth) :=
    .skip .peek fun _ => .throw _
  have leaf {value : Expr} (alone : value.parts = []) :
      value.height ≤ heightWithin (limit - depth) :=
    Expr.height_le_of_parts (heightWithin_pos _) (by simp [alone])
  refine .skip (.consume _) fun token => .skip .peek fun name => .ite (failFor _) ?_
  refine .skip .advance fun _ => .skip (.take _) fun _ => .ite (failFor _) ?_
  refine (yieldsExpr depth).bind balancedExpr fun start fitsStart => ?_
  refine .skip (.takeWord _) fun _ => .ite (failFor _) ?_
  refine (yieldsExpr depth).bind balancedExpr fun bound fitsBound => ?_
  -- Both ways to give the step go on in the same way.
  have body (counter : Ident) (step : Expr) (low : step.height ≤ heightWithin (limit - depth)) :
      Yields depth (do
        let body ← block
        return .for_ token.pos counter start bound (Stmt.countBy counter step) body)
        (StmtFits limit depth) := by
    refine (yieldsBlock depth).bind balancedBlock fun body fitsBody => .pure ⟨opened, ?_, fitsBody⟩
    have counts : (Stmt.countBy counter step).value.height ≤ heightWithin (limit - depth) + 1 :=
      Expr.height_le_iff.2 (by simpa [Stmt.countBy, Expr.parts, low] using leaf rfl)
    have target : (Stmt.countBy counter step).target.height ≤ heightWithin (limit - depth) :=
      leaf rfl
    simp only [Stmt.exprs, List.forall_mem_cons, List.not_mem_nil, false_imp_iff, implies_true,
      and_true]
    exact ⟨fitsStart.height_le_succ, fitsBound.height_le_succ, Nat.le_succ_of_le target, counts⟩
  refine .skip (.takeWord _) fun _ => .ite ?_ ?_
  · exact (yieldsExpr depth).bind balancedExpr fun step fits => body _ step fits.height
  · exact Yields.bind (.pure (leaf rfl)) (.pure _) fun step low => body _ step low

theorem yields_simpleStmt {depth : Nat} (opened : depth ≤ limit) :
    Yields depth (simpleStmt expr block) (StmtFits limit depth) := by
  have alone {stmt : Stmt} (parts : stmt.parts = [])
      (fits : ∀ part ∈ stmt.exprs, Fits limit depth part) : StmtFits limit depth stmt :=
    ⟨opened, fun part member => (fits part member).height_le_succ, by simp [parts]⟩
  refine .skip .peek fun token => ?_
  split
  · refine .skip .advance fun _ => (yieldsExpr depth).bind balancedExpr fun condition fits => ?_
    refine (yieldsBlock depth).bind balancedBlock fun body fitsBody => .pure ⟨opened, ?_, fitsBody⟩
    simpa [Stmt.exprs] using fits.height_le_succ
  · have atEnd : Balanced atStmtEnd := Balanced.peek.bind fun _ => .pure _
    refine .skip .advance fun _ => .skip atEnd fun _ => .ite (.pure (alone rfl ?_)) ?_
    · simp [Stmt.exprs]
    · refine (yieldsExpr depth).bind balancedExpr fun value fits => .pure (alone rfl ?_)
      simpa [Stmt.exprs] using fits
  · exact .skip .advance fun _ => .pure (alone rfl (by simp [Stmt.exprs]))
  · exact .skip .advance fun _ => .pure (alone rfl (by simp [Stmt.exprs]))
  · refine (yieldsExpr depth).bind balancedExpr fun target fitsTarget => .skip (.take _) fun _ => ?_
    refine .ite ((yieldsExpr depth).bind balancedExpr fun value fitsValue => .pure (alone rfl ?_))
      (.pure (alone rfl ?_))
    · simpa [Stmt.exprs] using ⟨fitsTarget, fitsValue⟩
    · simpa [Stmt.exprs] using fitsTarget

end

theorem yields_stmt {limit : Nat} {block : Parser (List Stmt)} (balanced : Balanced block)
    (yields : ∀ depth, Yields depth block (BlockFits limit depth)) {depth : Nat}
    (opened : depth ≤ limit) : Yields depth (stmt limit block) (StmtFits limit depth) := by
  have balancedExpr := balanced_exprWithin limit limit
  have yieldsExpr := yields_exprWithin limit limit
  refine .skip .peek fun token => ?_
  split
  · exact yields_branchWithin balancedExpr balanced yieldsExpr yields limit opened
  · exact yields_countingLoop balancedExpr balanced yieldsExpr yields opened
  · refine (yields_simpleStmt balancedExpr balanced yieldsExpr yields opened).bind
      (balanced_simpleStmt balancedExpr balanced) fun statement fits => ?_
    exact .skip (.take _) fun _ => .pure fits

theorem yields_blockWithin (limit levels depth : Nat) :
    Yields depth (blockWithin limit levels) (BlockFits limit depth) := by
  have blockOf {statements : Parser (List Stmt)} {depth : Nat} (balanced : Balanced statements)
      (yields : Yields depth statements (BlockFits limit depth)) :
      Yields depth (blockOf statements) (BlockFits limit depth) := by
    refine .skip (.consume _) fun _ => yields.bind balanced fun body fits => ?_
    exact .skip (.consume _) fun _ => .pure fits
  induction levels generalizing depth with
  | zero => exact blockOf (.throw _) (.throw _)
  | succ levels induction =>
      have balancedBlock := balanced_blockWithin limit levels
      have balanced := balanced_stmt balancedBlock limit
      apply blockOf ((balanced.many _).nested limit)
      exact .nested fun room => (yields_stmt balancedBlock induction room).many balanced _

/-! Declarations. -/

structure FunctionFits (limit : Nat) (function : Function) : Prop where
  types : ∀ parameter ∈ function.parameters, parameter.type.mappings ≤ limit
  defaults : ∀ parameter ∈ function.parameters, ∀ value ∈ parameter.default, Fits limit 0 value
  body : BlockFits limit 0 function.body

structure ContractFits (limit : Nat) (contract : Contract) : Prop where
  types : ∀ type ∈ contract.types, type.mappings ≤ limit
  functions : ∀ function ∈ contract.functions, FunctionFits limit function

def MemberFits (limit : Nat) : Member → Prop
  | .stateVar var => var.type.mappings ≤ limit
  | .function function => FunctionFits limit function
  | .struct struct => ∀ field ∈ struct.fields, field.type.mappings ≤ limit

theorem yields_typedName (limit : Nat) :
    Yields 0 (typedName limit) fun typed => typed.2.mappings ≤ limit := by
  refine .skip .ident fun _ => .skip (.consume _) fun _ => ?_
  exact (yields_typeWithin limit limit 0).bind (balanced_typeWithin limit limit) fun type low =>
    .pure low

theorem yields_stateVar (limit : Nat) :
    Yields 0 (stateVar limit) fun var => var.type.mappings ≤ limit := by
  refine (yields_typedName limit).bind (balanced_typedName limit) fun typed low => ?_
  exact .skip balanced_storageLocation? fun _ => .skip (.consume _) fun _ => .pure low

theorem yields_struct (limit : Nat) :
    Yields 0 (struct limit) fun struct => ∀ field ∈ struct.fields, field.type.mappings ≤ limit := by
  have field : Yields 0 (field limit) fun field => field.type.mappings ≤ limit :=
    (yields_typedName limit).bind (balanced_typedName limit) fun typed low =>
      .skip (.consume _) fun _ => .pure low
  have balanced := balanced_field limit
  refine .skip (.consume _) fun _ => .skip .ident fun _ => .skip (.consume _) fun _ => ?_
  refine (field.many balanced _).bind (balanced.many _) fun fields low => ?_
  exact .skip (.consume _) fun _ => .pure low

theorem yields_parameter (limit : Nat) :
    Yields 0 (parameter limit) fun parameter => parameter.type.mappings ≤ limit ∧
      ∀ value ∈ parameter.default, Fits limit 0 value := by
  refine (yields_typedName limit).bind (balanced_typedName limit) fun typed low => ?_
  refine .skip (.take _) fun _ => .ite ?_ (.pure ⟨low, by simp⟩)
  refine (yields_exprWithin limit limit 0).bind (balanced_exprWithin limit limit)
    fun value fits => .pure ⟨low, ?_⟩
  simpa using fits

theorem yields_function (limit : Nat) : Yields 0 (function limit) (FunctionFits limit) := by
  refine .skip (.consume _) fun _ => .skip .ident fun _ => .skip (.consume _) fun _ => ?_
  refine ((yields_parameter limit).closedList (balanced_parameter limit) _).bind
    ((balanced_parameter limit).closedList _) fun parameters fits => ?_
  refine .skip balanced_modifiers fun _ => .skip balanced_returnType? fun _ => ?_
  refine (yields_blockWithin limit limit 0).bind (balanced_blockWithin limit limit)
    fun body fitsBody => .pure ⟨?_, ?_, fitsBody⟩
  · exact fun parameter member => (fits parameter member).1
  · exact fun parameter member => (fits parameter member).2

theorem yields_member (limit : Nat) : Yields 0 (member limit) (MemberFits limit) := by
  refine .skip .peek fun token => ?_
  split
  · exact (yields_function limit).bind (balanced_function limit) fun _ fits => .pure fits
  · exact (yields_struct limit).bind (balanced_struct limit) fun _ low => .pure low
  · exact (yields_stateVar limit).bind (balanced_stateVar limit) fun _ low => .pure low

theorem contractFits_of_members {limit : Nat} {members : List Member} (name : Ident)
    (fits : ∀ member ∈ members, MemberFits limit member) :
    ContractFits limit ⟨name, members.filterMap Member.stateVar?,
      members.filterMap Member.function?, members.filterMap Member.struct?⟩ := by
  have vars : ∀ var ∈ members.filterMap Member.stateVar?, var.type.mappings ≤ limit := by
    intro var member
    obtain ⟨_ | _ | _, inside, ⟨⟩⟩ := List.mem_filterMap.1 member
    exact fits _ inside
  have functions : ∀ function ∈ members.filterMap Member.function?,
      FunctionFits limit function := by
    intro function member
    obtain ⟨_ | _ | _, inside, ⟨⟩⟩ := List.mem_filterMap.1 member
    exact fits _ inside
  have structs : ∀ struct ∈ members.filterMap Member.struct?, ∀ field ∈ struct.fields,
      field.type.mappings ≤ limit := by
    intro struct member
    obtain ⟨_ | _ | _, inside, ⟨⟩⟩ := List.mem_filterMap.1 member
    exact fits _ inside
  refine ⟨?_, functions⟩
  simp only [Contract.types, List.forall_mem_append, List.forall_mem_map, List.forall_mem_flatMap]
  exact ⟨⟨vars, fun function member => (functions function member).types⟩, structs⟩

theorem yields_program (limit : Nat) :
    Yields 0 (program limit) fun program =>
      ∀ contract ∈ program.contracts, ContractFits limit contract := by
  have contract : Yields 0 (contract limit) (ContractFits limit) := by
    refine .skip (.consume _) fun _ => .skip .ident fun name => .skip (.consume _) fun _ => ?_
    refine ((yields_member limit).many (balanced_member limit) _).bind
      ((balanced_member limit).many _) fun members fits => .skip (.consume _) fun _ => ?_
    exact .pure (contractFits_of_members name fits)
  refine (contract.many (balanced_contract limit) _).bind ((balanced_contract limit).many _)
    fun contracts fits => .skip (.consume _) fun _ => .ite (.throw _) (.pure fits)

end Parser

end Covenant
