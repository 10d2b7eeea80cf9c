import Covenant.Stmt.Basic

/-! The parts of expressions and statements, and proofs that follow them. -/

namespace Covenant

namespace Expr

/-- The expressions that stand directly in an expression. -/
def parts : Expr → List Expr
  | literal _ _ | ident _ _ => []
  | unary _ _ operand => [operand]
  | binary _ _ left right => [left, right]
  | ternary _ condition yes no => [condition, yes, no]
  | member _ base _ => [base]
  | index _ base key => [base, key]
  | call _ callee arguments => callee :: arguments
  | tuple _ elements | array _ elements => elements
  | object _ properties => properties.map Prod.snd

theorem sizeOf_part_lt {expr part : Expr} (member : part ∈ expr.parts) :
    sizeOf part < sizeOf expr := by
  cases expr with
  | literal pos value => cases member
  | ident pos name => cases member
  | unary pos op operand =>
      obtain rfl := List.mem_singleton.1 member
      simp only [unary.sizeOf_spec]
      omega
  | binary pos op left right =>
      simp only [parts, List.mem_cons, List.not_mem_nil, or_false] at member
      rcases member with rfl | rfl
      all_goals
        simp only [binary.sizeOf_spec]
        omega
  | ternary pos condition yes no =>
      simp only [parts, List.mem_cons, List.not_mem_nil, or_false] at member
      rcases member with rfl | rfl | rfl
      all_goals
        simp only [ternary.sizeOf_spec]
        omega
  | member pos base name =>
      obtain rfl := List.mem_singleton.1 member
      simp
      omega
  | index pos base key =>
      simp only [parts, List.mem_cons, List.not_mem_nil, or_false] at member
      rcases member with rfl | rfl
      all_goals
        simp only [index.sizeOf_spec]
        omega
  | call pos callee arguments =>
      rcases List.mem_cons.1 member with rfl | inside
      · simp
        omega
      · have smaller := List.sizeOf_lt_of_mem inside
        simp
        omega
  | tuple pos elements =>
      have smaller := List.sizeOf_lt_of_mem (show part ∈ elements from member)
      simp
      omega
  | array pos elements =>
      have smaller := List.sizeOf_lt_of_mem (show part ∈ elements from member)
      simp
      omega
  | object pos properties =>
      obtain ⟨⟨key, value⟩, inside, rfl⟩ := List.mem_map.1 member
      have smaller := List.sizeOf_lt_of_mem inside
      simp at smaller ⊢
      omega

/-- What holds of an expression whenever it holds of its parts holds of all expressions. -/
theorem parts_induction {Holds : Expr → Prop}
    (step : ∀ expr : Expr, (∀ part ∈ expr.parts, Holds part) → Holds expr) (expr : Expr) :
    Holds expr :=
  step expr fun part member =>
    have := sizeOf_part_lt member
    parts_induction step part
termination_by sizeOf expr

/-- An expression, or one that stands in it at any depth. -/
inductive Contains : Expr → Expr → Prop where
  | self (expr : Expr) : Contains expr expr
  | inside {expr part inner : Expr} :
      part ∈ expr.parts → Contains part inner → Contains expr inner

end Expr

namespace Stmt

/-- The statements that stand directly in the blocks of a statement. -/
def parts : Stmt → List Stmt
  | if_ _ _ yes no => yes ++ no.getD []
  | while_ _ _ body | for_ _ _ _ _ _ body => body
  | assign _ _ | break_ _ | continue_ _ | return_ _ _ | expr _ _ => []

theorem sizeOf_part_lt {stmt part : Stmt} (member : part ∈ stmt.parts) :
    sizeOf part < sizeOf stmt := by
  cases stmt with
  | if_ pos condition yes no =>
      rcases List.mem_append.1 member with inside | inside
      · have smaller := List.sizeOf_lt_of_mem inside
        simp
        omega
      · cases no with
        | none => cases inside
        | some body =>
            have smaller := List.sizeOf_lt_of_mem (show part ∈ body from inside)
            simp
            omega
  | while_ pos condition body =>
      have smaller := List.sizeOf_lt_of_mem (show part ∈ body from member)
      simp
      omega
  | for_ pos counter start bound increment body =>
      have smaller := List.sizeOf_lt_of_mem (show part ∈ body from member)
      simp
      omega
  | assign _ _ | break_ _ | continue_ _ | return_ _ _ | expr _ _ => cases member

/-- What holds of a statement whenever it holds of its parts holds of all statements. -/
theorem parts_induction {Holds : Stmt → Prop}
    (step : ∀ stmt : Stmt, (∀ part ∈ stmt.parts, Holds part) → Holds stmt) (stmt : Stmt) :
    Holds stmt :=
  step stmt fun part member =>
    have := sizeOf_part_lt member
    parts_induction step part
termination_by sizeOf stmt

end Stmt

end Covenant
