import Covenant.Program.Parser
import Covenant.Proofs.Parser.Reading

/-! A routine that succeeds has closed all the levels it has opened. -/

namespace Covenant.Parser

variable {α β : Type}

def Balanced (routine : Parser α) : Prop :=
  ∀ ⦃state : State⦄ ⦃value : α⦄ ⦃after : State⦄, routine state = .ok value after →
    after.depth = state.depth

namespace Balanced

theorem pure (value : α) : Balanced (pure value) := by
  intro state other after succeeds
  cases succeeds
  rfl

theorem throw (error : CompileError) : Balanced (throw error : Parser α) := by
  intro state value after succeeds
  cases succeeds

theorem bind {first : Parser α} {next : α → Parser β} (balanced : Balanced first)
    (continues : ∀ value, Balanced (next value)) : Balanced (first >>= next) := by
  intro state value after succeeds
  obtain ⟨middle, between, started, finished⟩ := bind_eq_ok_iff.1 succeeds
  exact (continues middle finished).trans (balanced started)

theorem ite {condition : Prop} [Decidable condition] {yes no : Parser α}
    (balancedYes : Balanced yes) (balancedNo : Balanced no) :
    Balanced (if condition then yes else no) := by
  split
  · exact balancedYes
  · exact balancedNo

theorem peek : Balanced peek := by
  intro state value after succeeds
  cases succeeds
  rfl

theorem advance : Balanced advance := by
  intro state value after succeeds
  rw [Parser.advance] at succeeds
  split at succeeds <;> cases succeeds <;> rfl

theorem take (kind : Token.Kind) : Balanced (take kind) :=
  peek.bind fun _ => .ite (advance.bind fun _ => .pure _) (.pure _)

theorem consume (kind : Token.Kind) : Balanced (consume kind) :=
  peek.bind fun _ => .ite advance (.throw _)

theorem ident : Balanced ident :=
  (consume _).bind fun _ => .pure _

theorem atEnd (closing : Token.Kind) : Balanced (atEnd closing) :=
  peek.bind fun _ => .pure _

theorem isWord (word : String) : Balanced (isWord word) :=
  peek.bind fun _ => .pure _

theorem takeWord (word : String) : Balanced (takeWord word) :=
  (isWord word).bind fun _ => .ite (advance.bind fun _ => .pure _) (.pure _)

theorem nested {routine : Parser α} (balanced : Balanced routine) (limit : Nat) :
    Balanced (nested limit routine) := by
  rintro ⟨rest, depth⟩ value after succeeds
  rcases Nat.lt_or_ge depth limit with room | full
  · rw [nested_of_lt room] at succeeds
    split at succeeds
    · next ended =>
        cases succeeds
        simp [State.ascend, balanced ended]
    · cases succeeds
  · rw [nested_of_le full] at succeeds
    cases succeeds

theorem levelled (routine : Parser α) : Balanced (levelled routine) := by
  intro state value after succeeds
  rw [levelled_eq] at succeeds
  cases ran : routine state with
  | ok value after =>
      rw [ran] at succeeds
      cases succeeds
      rfl
  | error error after =>
      rw [ran] at succeeds
      cases succeeds

theorem iterate {step : α → Parser (ForInStep α)} (balanced : ∀ value, Balanced (step value))
    (value : α) : Balanced (iterate step value) := by
  intro state _ _ succeeds
  exact repeatWithin_of_bind (motive := Balanced) .pure (.throw _)
    (fun value _ => (balanced value).bind) state.rest value succeeds

section

variable {item : Parser α} (balanced : Balanced item)

include balanced

theorem manyRound (closing : Token.Kind) (items : List α) :
    Balanced (manyRound closing item items) :=
  (atEnd closing).bind fun _ => .ite (.pure _) (balanced.bind fun _ => .pure _)

theorem many (closing : Token.Kind) : Balanced (many closing item) :=
  (iterate (balanced.manyRound closing) []).bind fun _ => .pure _

theorem commaRound (closing : Token.Kind) (list : List α × Bool) :
    Balanced (commaRound closing item list) := by
  refine (atEnd _).bind fun _ => .ite (.pure _) (balanced.bind fun _ => (take _).bind fun _ => ?_)
  exact .ite (.pure _) (.pure _)

theorem commaList (closing : Token.Kind) : Balanced (commaList closing item) :=
  (iterate (balanced.commaRound closing) _).bind fun _ => .pure _

theorem closedList (closing : Symbol) : Balanced (closedList closing item) :=
  (balanced.commaList _).bind fun _ => (consume _).bind fun _ => .pure _

end

end Balanced

/-! Types and expressions. -/

theorem balanced_bracketsRound (type : TypeName) : Balanced (bracketsRound type) :=
  (Balanced.take _).bind fun _ => .ite ((Balanced.consume _).bind fun _ => .pure _) (.pure _)

theorem balanced_arrayType : Balanced arrayType :=
  Balanced.ident.bind fun _ => .iterate balanced_bracketsRound _

theorem balanced_mappingOf {value : Parser TypeName} (balanced : Balanced value) :
    Balanced (mappingOf value) := by
  refine Balanced.advance.bind fun _ => (Balanced.consume _).bind fun _ => ?_
  refine Balanced.ident.bind fun _ => (Balanced.consume _).bind fun _ => ?_
  exact balanced.bind fun _ => (Balanced.consume _).bind fun _ => .pure _

theorem balanced_typeWithin (limit levels : Nat) : Balanced (typeWithin limit levels) := by
  induction levels with
  | zero => exact (Balanced.isWord _).bind fun _ => .ite (.throw _) balanced_arrayType
  | succ levels induction =>
      refine (Balanced.isWord _).bind fun _ => .ite (.nested ?_ _) balanced_arrayType
      exact balanced_mappingOf induction

theorem balanced_binary {operand : Parser Expr} (balanced : Balanced operand) (limit : Nat)
    (levels : List BinaryOp.Level) : Balanced (binary limit operand levels) := by
  cases levels with
  | nil => exact balanced
  | cons level levels => exact .levelled _

theorem balanced_unaryOver {primary operand : Parser Expr} (balanced : Balanced primary)
    (balancedOperand : Balanced operand) : Balanced (unaryOver primary operand) := by
  refine Balanced.peek.bind fun token => ?_
  cases unaryOp? token.kind with
  | none => exact balanced
  | some op => exact Balanced.advance.bind fun _ => balancedOperand.bind fun _ => .pure _

theorem balanced_unaryWithin {primary : Parser Expr} (balanced : Balanced primary)
    (limit levels : Nat) : Balanced (unaryWithin limit primary levels) := by
  induction levels with
  | zero => exact balanced_unaryOver balanced (.throw _)
  | succ levels induction => exact balanced_unaryOver balanced (induction.nested limit)

theorem balanced_access? {expr : Parser Expr} (balanced : Balanced expr) (object : Expr) :
    Balanced (access? expr object) := by
  refine Balanced.peek.bind fun token => ?_
  split
  · exact Balanced.advance.bind fun _ => Balanced.ident.bind fun _ => .pure _
  · exact Balanced.advance.bind fun _ => balanced.bind fun _ =>
      (Balanced.consume _).bind fun _ => .pure _
  · exact Balanced.advance.bind fun _ => (balanced.closedList _).bind fun _ => .pure _
  · exact .pure _

theorem balanced_property {expr : Parser Expr} (balanced : Balanced expr) :
    Balanced (property expr) :=
  Balanced.ident.bind fun _ => (Balanced.consume _).bind fun _ => balanced.bind fun _ => .pure _

theorem balanced_parenthesized {expr : Parser Expr} (balanced : Balanced expr) (pos : Position) :
    Balanced (parenthesized expr pos) := by
  refine (balanced.closedList _).bind fun list => ?_
  split <;> exact .pure _

theorem balanced_primary {expr : Parser Expr} (balanced : Balanced expr) (limit : Nat) :
    Balanced (primary limit expr) := by
  refine Balanced.advance.bind fun token => ?_
  split
  · exact .pure _
  · exact .pure _
  · exact .pure _
  · exact .pure _
  · exact (balanced.closedList _).bind fun _ => .pure _
  · exact ((balanced_property balanced).closedList _).bind fun _ => .pure _
  · exact .levelled _
  · exact balanced_parenthesized balanced _
  · exact .throw _

theorem balanced_ternary {expr : Parser Expr} (balanced : Balanced expr) (limit : Nat) :
    Balanced (ternary limit expr) := by
  have operand := balanced_unaryWithin (balanced_primary balanced limit) limit limit
  refine (balanced_binary operand limit _).bind fun _ => (Balanced.take _).bind fun _ => ?_
  exact .ite (balanced.bind fun _ => (Balanced.consume _).bind fun _ =>
    balanced.bind fun _ => .pure _) (.pure _)

theorem balanced_exprWithin (limit levels : Nat) : Balanced (exprWithin limit levels) := by
  induction levels with
  | zero => exact .throw _
  | succ levels induction => exact (balanced_ternary induction limit).nested limit

/-! Statements. -/

section

variable {expr : Parser Expr} {block : Parser (List Stmt)} (balancedExpr : Balanced expr)
  (balancedBlock : Balanced block)

include balancedExpr balancedBlock

theorem balanced_branchOver {branch : Parser Stmt} (balanced : Balanced branch) :
    Balanced (branchOver expr block branch) := by
  refine (Balanced.consume _).bind fun _ => balancedExpr.bind fun _ => ?_
  refine balancedBlock.bind fun _ => (Balanced.take _).bind fun _ => ?_
  refine .ite (Balanced.peek.bind fun next => ?_) (.pure _)
  split
  · exact balancedBlock.bind fun _ => .pure _
  · exact balanced.bind fun _ => .pure _
  · exact .throw _

theorem balanced_branchWithin (limit levels : Nat) :
    Balanced (branchWithin limit expr block levels) := by
  induction levels with
  | zero => exact balanced_branchOver balancedExpr balancedBlock (.throw _)
  | succ levels induction =>
      exact balanced_branchOver balancedExpr balancedBlock (induction.nested limit)

theorem balanced_countingLoop : Balanced (countingLoop expr block) := by
  have failFor : ∀ part, Balanced (failFor part : Parser Stmt) := fun part =>
    Balanced.peek.bind fun _ => .throw _
  refine (Balanced.consume _).bind fun _ => Balanced.peek.bind fun _ => .ite (failFor _) ?_
  refine Balanced.advance.bind fun _ => (Balanced.take _).bind fun _ => .ite (failFor _) ?_
  refine balancedExpr.bind fun _ => (Balanced.takeWord _).bind fun _ => .ite (failFor _) ?_
  refine balancedExpr.bind fun _ => (Balanced.takeWord _).bind fun _ => .ite ?_ ?_
  · exact balancedExpr.bind fun _ => balancedBlock.bind fun _ => .pure _
  · exact (Balanced.pure _).bind fun _ => balancedBlock.bind fun _ => .pure _

omit balancedBlock in
theorem balanced_exprStmt (pos : Position) : Balanced (exprStmt expr pos) :=
  balancedExpr.bind fun _ => (Balanced.take _).bind fun _ =>
    .ite (balancedExpr.bind fun _ => .pure _) (.pure _)

theorem balanced_simpleStmt : Balanced (simpleStmt expr block) := by
  refine Balanced.peek.bind fun token => ?_
  split
  · exact Balanced.advance.bind fun _ => balancedExpr.bind fun _ =>
      balancedBlock.bind fun _ => .pure _
  · exact Balanced.advance.bind fun _ => (Balanced.peek.bind fun _ => .pure _).bind fun _ =>
      .ite (.pure _) (balancedExpr.bind fun _ => .pure _)
  · exact Balanced.advance.bind fun _ => .pure _
  · exact Balanced.advance.bind fun _ => .pure _
  · exact balanced_exprStmt balancedExpr _

end

theorem balanced_stmt {block : Parser (List Stmt)} (balanced : Balanced block) (limit : Nat) :
    Balanced (stmt limit block) := by
  have balancedExpr := balanced_exprWithin limit limit
  refine Balanced.peek.bind fun token => ?_
  split
  · exact balanced_branchWithin balancedExpr balanced limit limit
  · exact balanced_countingLoop balancedExpr balanced
  · exact (balanced_simpleStmt balancedExpr balanced).bind fun _ =>
      (Balanced.take _).bind fun _ => .pure _

theorem balanced_blockWithin (limit levels : Nat) : Balanced (blockWithin limit levels) := by
  have blockOf {statements : Parser (List Stmt)} (balanced : Balanced statements) :
      Balanced (blockOf statements) :=
    (Balanced.consume _).bind fun _ => balanced.bind fun _ =>
      (Balanced.consume _).bind fun _ => .pure _
  induction levels with
  | zero => exact blockOf (.throw _)
  | succ levels induction => exact blockOf (((balanced_stmt induction limit).many _).nested limit)

/-! Declarations. -/

theorem balanced_typedName (limit : Nat) : Balanced (typedName limit) :=
  Balanced.ident.bind fun _ => (Balanced.consume _).bind fun _ =>
    (balanced_typeWithin limit limit).bind fun _ => .pure _

theorem balanced_storageLocation? : Balanced storageLocation? :=
  (Balanced.take _).bind fun _ => .ite (.pure _) ((Balanced.take _).bind fun _ =>
    .ite (.pure _) (.pure _))

theorem balanced_stateVar (limit : Nat) : Balanced (stateVar limit) :=
  (balanced_typedName limit).bind fun _ => balanced_storageLocation?.bind fun _ =>
    (Balanced.consume _).bind fun _ => .pure _

theorem balanced_field (limit : Nat) : Balanced (field limit) :=
  (balanced_typedName limit).bind fun _ => (Balanced.consume _).bind fun _ => .pure _

theorem balanced_struct (limit : Nat) : Balanced (struct limit) := by
  refine (Balanced.consume _).bind fun _ => Balanced.ident.bind fun _ => ?_
  refine (Balanced.consume _).bind fun _ => ((balanced_field limit).many _).bind fun _ => ?_
  exact (Balanced.consume _).bind fun _ => .pure _

theorem balanced_parameter (limit : Nat) : Balanced (parameter limit) :=
  (balanced_typedName limit).bind fun _ => (Balanced.take _).bind fun _ =>
    .ite ((balanced_exprWithin limit limit).bind fun _ => .pure _) (.pure _)

theorem balanced_modifiers : Balanced modifiers := by
  refine .iterate (fun modifiers => Balanced.peek.bind fun token => ?_) _
  cases modifier? token.kind with
  | none => exact .pure _
  | some modifier => exact .ite (.throw _) (Balanced.advance.bind fun _ => .pure _)

theorem balanced_returnType? : Balanced returnType? := by
  refine (Balanced.take _).bind fun _ => .ite ?_ (.pure _)
  refine (Balanced.take _).bind fun _ => .ite ?_ (Balanced.ident.bind fun _ => .pure _)
  exact (Balanced.ident.closedList _).bind fun _ => .pure _

theorem balanced_function (limit : Nat) : Balanced (function limit) := by
  refine (Balanced.consume _).bind fun _ => Balanced.ident.bind fun _ => ?_
  refine (Balanced.consume _).bind fun _ => ?_
  refine ((balanced_parameter limit).closedList _).bind fun _ => ?_
  refine balanced_modifiers.bind fun _ => balanced_returnType?.bind fun _ => ?_
  exact (balanced_blockWithin limit limit).bind fun _ => .pure _

theorem balanced_member (limit : Nat) : Balanced (member limit) := by
  refine Balanced.peek.bind fun token => ?_
  split
  · exact (balanced_function limit).bind fun _ => .pure _
  · exact (balanced_struct limit).bind fun _ => .pure _
  · exact (balanced_stateVar limit).bind fun _ => .pure _

theorem balanced_contract (limit : Nat) : Balanced (contract limit) := by
  refine (Balanced.consume _).bind fun _ => Balanced.ident.bind fun _ => ?_
  refine (Balanced.consume _).bind fun _ => ((balanced_member limit).many _).bind fun _ => ?_
  exact (Balanced.consume _).bind fun _ => .pure _

/-! Whole inputs. -/

theorem balanced_program (limit : Nat) : Balanced (program limit) :=
  ((balanced_contract limit).many _).bind fun _ => (Balanced.consume _).bind fun _ =>
    .ite (.throw _) (.pure _)

theorem balanced_wholeExpr (limit : Nat) : Balanced (wholeExpr limit) :=
  (balanced_exprWithin limit limit).bind fun _ => (Balanced.consume _).bind fun _ => .pure _

end Covenant.Parser
