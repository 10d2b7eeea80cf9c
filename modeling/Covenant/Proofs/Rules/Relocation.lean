import Covenant.Compilation
import Covenant.Proofs.Rules.Checking
import Covenant.Proofs.Syntax.Relocation

/-! Places decide where an error is reported, and nothing else: a program with its places changed is
accepted or rejected for the same reasons, and its code is the same. -/

namespace Covenant

variable (move : Position → Position)

namespace Expr

theorem checkSelf_relocate (expr : Expr) :
    (expr.relocate move).checkSelf = expr.checkSelf.mapError (Located.relocate move) := by
  cases expr with
  | call pos callee arguments => cases callee <;> rfl
  | tuple pos elements => cases elements <;> rfl
  | literal | ident | unary | binary | ternary | member | index | array | object => rfl

theorem check_relocate (expr : Expr) :
    (expr.relocate move).check = expr.check.mapError (Located.relocate move) := by
  induction expr using parts_induction with
  | step expr induction =>
      rw [check_eq, check_eq, checkSelf_relocate, relocate_parts, mapError_bind,
        forM_map_eq_mapError _ induction]

theorem root_relocate (target : Expr) :
    (target.relocate move).root = target.root.mapError (Located.relocate move) := by
  induction target using parts_induction with
  | step target induction =>
      cases target with
      | member pos base field => exact induction base (by simp [parts])
      | index pos base key => exact induction base (by simp [parts])
      | literal | ident | unary | binary | ternary | call | tuple | array | object => rfl

theorem checkKeys_relocate (target : Expr) :
    (target.relocate move).checkKeys = target.checkKeys.mapError (Located.relocate move) := by
  induction target using parts_induction with
  | step target induction =>
      cases target with
      | member pos base field => exact induction base (by simp [parts])
      | index pos base key =>
          rw [relocate, checkKeys, checkKeys, mapError_bind, check_relocate,
            induction base (by simp [parts])]
      | literal | ident | unary | binary | ternary | call | tuple | array | object => rfl

end Expr

namespace Stmt

variable (scope : Scope)

theorem relocate_counters (stmt : Stmt) : (stmt.relocate move).counters = stmt.counters := by
  cases stmt <;> rfl

theorem checkAssign_relocate (assignment : Assignment) :
    checkAssign scope (assignment.relocate move) =
      (checkAssign scope assignment).mapError (Located.relocate move) := by
  rw [checkAssign, checkAssign, Assignment.relocate, Expr.root_relocate, mapError_bind]
  congr 1
  funext name
  split
  · rw [mapError_bind, Expr.checkKeys_relocate, Expr.check_relocate]
  · rw [Expr.relocate_pos]
    rfl

theorem checkValue_relocate (type : ReturnType) (value : Expr) :
    type.checkValue (value.relocate move) =
      (type.checkValue value).mapError (Located.relocate move) := by
  cases value with
  | tuple pos elements =>
      cases type <;> simp only [Expr.relocate, Expr.relocateAll_eq, ReturnType.checkValue,
        List.length_map] <;> split <;> rfl
  | literal | ident | unary | binary | ternary | member | index | call | array | object => rfl

theorem checkReturn_relocate (pos : Position) (value : Option Expr) :
    checkReturn scope (move pos) (value.map (Expr.relocate move)) =
      (checkReturn scope pos value).mapError (Located.relocate move) := by
  cases value with
  | none => rfl
  | some value =>
      rw [Option.map_some, checkReturn, checkReturn]
      cases scope.returns with
      | none => rfl
      | some type => simp only [mapError_bind, Expr.check_relocate, checkValue_relocate]

theorem checkAlone_relocate (pos : Position) (value : Expr) :
    checkAlone (move pos) (value.relocate move) =
      (checkAlone pos value).mapError (Located.relocate move) := by
  cases value with
  | call place callee arguments => exact Expr.check_relocate move (.call place callee arguments)
  | literal | ident | unary | binary | ternary | member | index | tuple | array | object => rfl

theorem checkSelf_relocate (stmt : Stmt) :
    (stmt.relocate move).checkSelf scope =
      (stmt.checkSelf scope).mapError (Located.relocate move) := by
  cases stmt with
  | assign pos assignment => exact checkAssign_relocate move scope assignment
  | if_ pos condition yes no => exact Expr.check_relocate move condition
  | while_ pos condition body => exact Expr.check_relocate move condition
  | for_ pos counter start bound increment body =>
      rw [relocate, checkSelf, checkSelf, mapError_bind, mapError_bind, Expr.check_relocate,
        Expr.check_relocate, checkAssign_relocate]
      rfl
  | break_ pos => cases loops : scope.hasLoop <;> simp [relocate, checkSelf, loops] <;> rfl
  | continue_ pos => cases loops : scope.hasLoop <;> simp [relocate, checkSelf, loops] <;> rfl
  | return_ pos value => exact checkReturn_relocate move scope pos value
  | expr pos value => exact checkAlone_relocate move pos value

theorem check_relocate (stmt : Stmt) :
    (stmt.relocate move).check scope = (stmt.check scope).mapError (Located.relocate move) := by
  induction stmt using parts_induction generalizing scope with
  | step stmt induction =>
      rw [check_eq, check_eq, checkSelf_relocate, relocate_parts, relocate_counters, mapError_bind,
        forM_map_eq_mapError _ fun part member => induction part member _]

end Stmt

theorem TypeName.check_relocate (type : TypeName) (pos : Position) :
    type.check (move pos) = (type.check pos).mapError (Located.relocate move) := by
  rw [check, check]
  split <;> rfl

theorem StateVar.declare_relocate (names : Std.TreeSet String) (var : StateVar) :
    (var.relocate move).declare names =
      (var.declare names).mapError (Located.relocate move) := by
  rw [declare, declare, mapError_bind, ← TypeName.check_relocate]
  simp only [apply_ite (Except.mapError (Located.relocate move))]
  rfl

theorem Parameter.check_relocate (parameter : Parameter) :
    (parameter.relocate move).check = parameter.check.mapError (Located.relocate move) := by
  obtain ⟨name, type, value⟩ := parameter
  rw [check, check, mapError_bind, ← TypeName.check_relocate]
  cases value with
  | none => rfl
  | some value => exact congrArg (_ >>= fun _ => ·) (Expr.check_relocate move value)

theorem Function.check_relocate (function : Function) (hasOwner : Bool)
    (stateVars : Std.TreeSet String) :
    (function.relocate move).check hasOwner stateVars =
      (function.check hasOwner stateVars).mapError (Located.relocate move) := by
  have head : (function.relocate move).checkHead hasOwner =
      (function.checkHead hasOwner).mapError (Located.relocate move) := by
    simp only [checkHead, apply_ite (Except.mapError (Located.relocate move))]
    rfl
  have parameters : (function.relocate move).parameters.forM Parameter.check =
      (function.parameters.forM Parameter.check).mapError (Located.relocate move) :=
    forM_map_eq_mapError _ fun parameter _ => parameter.check_relocate move
  have scope : (function.relocate move).scope stateVars = function.scope stateVars := by
    simp [Function.scope, relocate, List.any_map, Function.comp_def]
  have body : Stmt.checkAll (function.scope stateVars) (function.relocate move).body =
      (Stmt.checkAll (function.scope stateVars) function.body).mapError
        (Located.relocate move) := by
    rw [Stmt.checkAll_eq_forM, Stmt.checkAll_eq_forM]
    exact forM_map_eq_mapError _ fun stmt _ => stmt.check_relocate move _
  rw [check, check, mapError_bind, mapError_bind, head, parameters, scope, body]

/-! Names, types and modifiers make up the output for a contract. -/

theorem Function.signature_relocate (function : Function) :
    (function.relocate move).signature = function.signature := by
  simp only [signature, relocate, List.map_map]
  rfl

theorem Abi.Entry.ofFunction_relocate (function : Function) :
    ofFunction (function.relocate move) = ofFunction function := by
  simp only [ofFunction, Function.relocate, List.map_map]
  rfl

theorem Evm.Dispatcher.stub_relocate (count index : Nat) (function : Function) :
    stub count (function.relocate move) index = stub count function index := by
  simp only [stub, Function.relocate, List.length_map]
  rfl

theorem Evm.Dispatcher.assembly_relocate (select : String → Selector)
    (functions : List Function) :
    assembly select (functions.map (Function.relocate move)) = assembly select functions := by
  simp [assembly, instrs, List.zipIdx_map, List.flatMap_map, Function.signature_relocate,
    stub_relocate]

namespace Contract

theorem stateNames_relocate (contract : Contract) :
    (contract.relocate move).stateNames =
      contract.stateNames.mapError (Located.relocate move) := by
  have declared : ∀ (vars : List StateVar) (names : Std.TreeSet String),
      (vars.map (StateVar.relocate move)).foldlM StateVar.declare names =
        (vars.foldlM StateVar.declare names).mapError (Located.relocate move) := by
    intro vars
    induction vars with
    | nil => exact fun names => rfl
    | cons var vars induction =>
        intro names
        simp only [List.map_cons, List.foldlM_cons, mapError_bind, StateVar.declare_relocate,
          induction]
  exact declared contract.stateVars ∅

theorem hasOwner_relocate (contract : Contract) :
    (contract.relocate move).hasOwner = contract.hasOwner := by
  simp [hasOwner, relocate, StateVar.relocate, List.any_map, Function.comp_def]

theorem check_relocate (contract : Contract) :
    (contract.relocate move).check = contract.check.mapError (Located.relocate move) := by
  rw [check, check, stateNames_relocate, hasOwner_relocate, mapError_bind]
  congr 1
  funext names
  exact forM_map_eq_mapError _ fun function _ => function.check_relocate move _ _

theorem generateWith_relocate (select : String → Selector) (contract : Contract) :
    (contract.relocate move).generateWith select = contract.generateWith select := by
  have runtime : Evm.runtimeCodeWith select (contract.relocate move) =
      Evm.runtimeCodeWith select contract := by
    rw [Evm.runtimeCodeWith, Evm.runtimeCodeWith, relocate_callable,
      Evm.Dispatcher.assembly_relocate]
  have abi : Abi.ofContract (contract.relocate move) = Abi.ofContract contract := by
    simp [Abi.ofContract, relocate, Abi.Entry.ofFunction_relocate]
  rw [generateWith, generateWith, runtime, abi]
  rfl

end Contract

namespace Program

theorem check_relocate (program : Program) :
    (program.relocate move).check = program.check.mapError (Located.relocate move) :=
  forM_map_eq_mapError _ fun contract _ => contract.check_relocate move

theorem generateWith_relocate (select : String → Selector) (program : Program) :
    (program.relocate move).generateWith select = program.generateWith select := by
  have same : Contract.generateWith select ∘ Contract.relocate move =
      Contract.generateWith select :=
    funext fun contract => contract.generateWith_relocate move select
  rw [generateWith, generateWith, relocate, List.mapM_map, same]

end Program

end Covenant
