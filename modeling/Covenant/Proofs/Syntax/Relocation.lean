import Covenant.Error
import Covenant.Program.Relocate
import Covenant.Proofs.Lists
import Covenant.Proofs.Syntax.Parts

/-! What stays the same when places are changed: everything but the places. -/

namespace Covenant

def Located.relocate {α : Type} (move : Position → Position) (located : Located α) : Located α :=
  ⟨move located.pos, located.value⟩

def CompileError.relocate (move : Position → Position) : CompileError → CompileError
  | lex error => .lex (error.relocate move)
  | parse error => .parse (error.relocate move)
  | semantic error => .semantic (error.relocate move)
  | resource error => .resource error
  | unboundLabel label => .unboundLabel label

variable (move : Position → Position)

@[simp] theorem Ident.relocate_name (ident : Ident) : (ident.relocate move).name = ident.name := rfl

namespace Expr

@[simp] theorem relocate_parts (expr : Expr) :
    (expr.relocate move).parts = expr.parts.map (relocate move) := by
  cases expr <;> simp [relocate, parts]

end Expr

namespace Stmt

@[simp] theorem relocate_isLoop (stmt : Stmt) : (stmt.relocate move).isLoop = stmt.isLoop := by
  cases stmt <;> simp [relocate, isLoop]

@[simp] theorem relocate_parts (stmt : Stmt) :
    (stmt.relocate move).parts = stmt.parts.map (relocate move) := by
  cases stmt with
  | if_ pos condition yes no => cases no <;> simp [relocate, parts]
  | assign | while_ | for_ | break_ | continue_ | return_ | expr => simp [relocate, parts]

end Stmt

@[simp] theorem Function.relocate_isConstructor (function : Function) :
    (function.relocate move).isConstructor = function.isConstructor := rfl

theorem Contract.relocate_callable (contract : Contract) :
    (contract.relocate move).callable = contract.callable.map (Function.relocate move) := by
  simp [callable, relocate, List.filter_map, Function.comp_def]

/-! Leaving every place where it is changes nothing at all. -/

theorem Expr.relocate_id (expr : Expr) : expr.relocate id = expr := by
  induction expr using parts_induction with
  | step expr induction =>
      cases expr with
      | literal | ident => rfl
      | unary pos op operand =>
          rw [relocate, induction operand (by simp [parts])]
          rfl
      | binary pos op left right =>
          rw [relocate, induction left (by simp [parts]), induction right (by simp [parts])]
          rfl
      | ternary pos condition yes no =>
          rw [relocate, induction condition (by simp [parts]), induction yes (by simp [parts]),
            induction no (by simp [parts])]
          rfl
      | member pos base name =>
          rw [relocate, induction base (by simp [parts])]
          rfl
      | index pos base key =>
          rw [relocate, induction base (by simp [parts]), induction key (by simp [parts])]
          rfl
      | call pos callee arguments =>
          rw [relocate, relocateAll_eq, induction callee (by simp [parts]),
            map_eq_self fun argument member => induction argument (by simp [parts, member])]
          rfl
      | tuple pos elements | array pos elements =>
          have same : elements.map (relocate id) = elements := map_eq_self induction
          rw [relocate, relocateAll_eq, same]
          rfl
      | object pos properties =>
          rw [relocate, relocateProperties_eq, map_eq_self fun property member => ?_]
          · rfl
          · obtain ⟨key, value⟩ := property
            have same : value.relocate id = value :=
              induction value (by simpa [parts] using ⟨key, member⟩)
            simp only [same]

theorem Assignment.relocate_id (assignment : Assignment) : assignment.relocate id = assignment := by
  rw [relocate, Expr.relocate_id, Expr.relocate_id]

theorem Stmt.relocate_id (stmt : Stmt) : stmt.relocate id = stmt := by
  induction stmt using parts_induction with
  | step stmt induction =>
      cases stmt with
      | break_ | continue_ => rfl
      | assign pos assignment =>
          rw [relocate, Assignment.relocate_id]
          rfl
      | if_ pos condition yes no =>
          have first : yes.map (relocate id) = yes :=
            map_eq_self fun inner member => induction inner (by simp [parts, member])
          cases no with
          | none =>
              rw [relocate, Expr.relocate_id, relocateAll_eq, first]
              rfl
          | some body =>
              have second : body.map (relocate id) = body :=
                map_eq_self fun inner member => induction inner (by simp [parts, member])
              rw [relocate, Expr.relocate_id, relocateAll_eq, first, relocateAll_eq, second]
              rfl
      | while_ pos condition body =>
          have same : body.map (relocate id) = body := map_eq_self induction
          rw [relocate, Expr.relocate_id, relocateAll_eq, same]
          rfl
      | for_ pos counter start bound increment body =>
          have same : body.map (relocate id) = body := map_eq_self induction
          rw [relocate, Expr.relocate_id, Expr.relocate_id, Assignment.relocate_id, relocateAll_eq,
            same]
          rfl
      | return_ pos value =>
          cases value with
          | none => rfl
          | some value =>
              rw [relocate, Option.map_some, Expr.relocate_id]
              rfl
      | expr pos value =>
          rw [relocate, Expr.relocate_id]
          rfl

theorem Program.relocate_id (program : Program) : program.relocate id = program := by
  have parameter (parameter : Parameter) : parameter.relocate id = parameter := by
    obtain ⟨name, type, value⟩ := parameter
    cases value with
    | none => rfl
    | some value => simp only [Parameter.relocate, Option.map_some, Expr.relocate_id]; rfl
  have function (function : Function) : function.relocate id = function := by
    rw [Function.relocate, map_eq_self fun item _ => parameter item,
      map_eq_self fun stmt _ => stmt.relocate_id]
    rfl
  have field (field : Field) : field.relocate id = field := rfl
  have struct (struct : Struct) : struct.relocate id = struct := by
    rw [Struct.relocate, map_eq_self fun item _ => field item]
    rfl
  have stateVar (var : StateVar) : var.relocate id = var := rfl
  have contract (contract : Contract) : contract.relocate id = contract := by
    rw [Contract.relocate, map_eq_self fun item _ => function item,
      map_eq_self fun item _ => struct item, map_eq_self fun item _ => stateVar item]
    rfl
  rw [relocate, map_eq_self fun item _ => contract item]

theorem CompileError.relocate_id (error : CompileError) : error.relocate id = error := by
  cases error <;> rfl

end Covenant
