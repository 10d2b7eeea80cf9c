import Covenant.Proofs.Parser.Nesting
import Covenant.TypeName.Printer

/-! How deep mappings and arrays stand inside each other in a type. Only a mapping opens a level;
the brackets of arrays are read one after another, so that no limit holds for them. -/

namespace Covenant

namespace TypeName

/-- How many mappings stand inside each other. -/
def mappings : TypeName → Nat
  | named _ => 0
  | array element => element.mappings
  | mapping _ value => value.mappings + 1

/-- How many arrays stand inside each other. -/
def arrays : TypeName → Nat
  | named _ => 0
  | array element => element.arrays + 1
  | mapping _ value => value.arrays

theorem mappings_le_length_shapes (type : TypeName) : type.mappings ≤ type.shapes.length := by
  induction type with
  | named name => exact Nat.zero_le _
  | array element induction =>
      simp only [mappings, shapes, List.length_append]
      omega
  | mapping key value induction =>
      simp only [mappings, shapes, List.length_append, List.length_cons]
      omega

end TypeName

namespace Parser

theorem yields_arrayType (depth : Nat) : Yields depth arrayType fun type => type.mappings = 0 := by
  refine .skip .ident fun name => .iterate balanced_bracketsRound (fun type none => ?_) rfl
  exact .skip (.take _) fun _ => .ite (.skip (.consume _) fun _ => .pure none) (.pure none)

theorem yields_typeWithin (limit levels depth : Nat) :
    Yields depth (typeWithin limit levels) fun type => type.mappings ≤ limit - depth := by
  have arrays (depth : Nat) : Yields depth arrayType fun type => type.mappings ≤ limit - depth :=
    (yields_arrayType depth).mono fun type none => none ▸ Nat.zero_le _
  induction levels generalizing depth with
  | zero => exact .skip (.isWord _) fun _ => .ite (.throw _) (arrays depth)
  | succ levels induction =>
      refine .skip (.isWord _) fun _ => .ite (.nested fun room => ?_) (arrays depth)
      refine .skip .advance fun _ => .skip (.consume _) fun _ => .skip .ident fun _ => ?_
      refine .skip (.consume _) fun _ => ?_
      refine (induction (depth + 1)).bind (balanced_typeWithin limit levels) fun value low => ?_
      refine .skip (.consume _) fun _ => .pure ?_
      change value.mappings + 1 ≤ limit - depth
      omega

end Parser

end Covenant
