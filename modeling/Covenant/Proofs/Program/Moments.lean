import Covenant.Proofs.Parser.Moments
import Covenant.Proofs.Program.Balance
import Covenant.Proofs.Program.Coupling
import Covenant.Proofs.Program.Reading
import Mathlib

/-! The runs of all routines of the parser, and what they cost. A price is that of the longest way
through a routine: a step that looks costs one moment, and a token that is looked at and passed
brings in twenty-two. Since all routines have runs, all keep the levels in balance. -/

namespace Covenant.Parser

open Covenant.Expr (Derives)

variable {limit : Nat}

/-! Types. -/

theorem costs_ident : Costs limit (fun _ => -22) 1 ident := by
  rw [← bind_pure ident]
  exact .ident_bind (fun _ => .pure (by omega)) (by omega)

theorem costs_bracketsRound (type : TypeName) :
    Costs limit (roundPrice fun _ => 1) 1 (bracketsRound type) := by
  refine .take_bind (by simp) ?_ (.pure (by simp [roundPrice]))
  exact .consume_bind (by simp) (fun _ => .pure (by simp [roundPrice])) (by omega)

theorem costs_arrayType : Costs limit (fun _ => -21) 1 arrayType := by
  refine .ident_bind (fun name => ?_) (by omega)
  have brackets := Costs.iterate progressive_bracketsRound (@costs_bracketsRound limit)
    (.named name.name)
  exact brackets.mono (fun _ => by omega) (by omega)

theorem costs_mappingOf {value : Parser TypeName} (costs : Costs limit (fun _ => -20) 6 value) :
    Costs limit (fun _ => -24) 2 (mappingOf value) := by
  -- The first token is not looked at here, so it may be the one that ends the input.
  have rest {price failing : Int} (enough : -107 ≤ price) (fails : 1 ≤ failing) :
      Costs limit (fun _ => price) failing (do
        let _ ← consume (.symbol .lparen)
        let key ← ident
        let _ ← consume (.symbol .arrow)
        let type ← value
        let _ ← consume (.symbol .rparen)
        return TypeName.mapping key.name type) := by
    refine .consume_bind (by simp) (fun _ => .ident_bind (fun _ => ?_) (by omega)) (by omega)
    refine .consume_bind (by simp) (fun _ => costs.bind (fun _ => ?_) (by omega)) (by omega)
    exact .consume_bind (by simp) (fun _ => .pure (by omega)) (by omega)
  exact .advance_bind (fun _ _ => rest (by omega) (by omega)) fun _ _ => rest (by omega) (by omega)

theorem costs_typeWithin (levels : Nat) :
    Costs limit (fun _ => -20) 6 (typeWithin limit levels) := by
  have array : Costs limit (fun _ => -20 - 1) (6 - 1) arrayType :=
    costs_arrayType.mono (fun _ => by omega) (by omega)
  induction levels with
  | zero => exact .isWord_bind fun _ => .ite (fun _ => .tooDeep (by omega)) fun _ => array
  | succ levels induction =>
      refine .isWord_bind fun _ => .ite (fun _ => .nested ?_ (by omega)) fun _ => array
      exact (costs_mappingOf induction).mono (fun _ => by omega) (by omega)

/-! Expressions. -/

theorem costs_operatorRound {operand : Parser Expr} {price : Int}
    (costs : Costs limit (fun _ => price) 2 operand) (cheap : price ≤ 0) (level : BinaryOp.Level)
    (left : Expr) :
    Costs limit (roundPrice fun _ => 1) 2 (operatorRound limit level operand left) := by
  refine .peek_bind fun token => ?_
  cases found : binaryOp? level token.kind with
  | none => exact .of_costs (.pure (by simp [roundPrice]))
  | some op =>
      have going : token.kind ≠ .eof := by simp [(binaryOp?_eq_some_iff.1 found).1]
      refine .descend_bind (.advance_bind going ?_) (by omega)
      exact costs.bind (fun _ => .pure (by simp only [roundPrice]; omega)) (by omega)

theorem costs_binary {operand : Parser Expr} (costs : Costs limit (fun _ => -20) 2 operand)
    (reads : Reads operand (Derives .unary)) (levels : List BinaryOp.Level)
    (few : levels.length ≤ 5) :
    Costs limit (fun _ => -20 + 2 * levels.length) 2 (binary limit operand levels) := by
  induction levels with
  | nil => exact costs
  | cons level levels induction =>
      rw [List.length_cons] at few ⊢
      have tighter := induction (by omega)
      have readsTighter : Reads (binary limit operand levels) fun _ _ => True :=
        (reads_binary reads levels).mono fun _ _ _ => trivial
      refine .levelled (tighter.bind (fun first => ?_) (by omega))
      have folds := Costs.iterate (progressive_operatorRound readsTighter)
        (costs_operatorRound tighter (by omega) level) first
      exact folds.mono (fun _ => by omega) (by omega)

theorem costs_unaryOver {primary operand : Parser Expr}
    (costs : Costs limit (fun _ => -21) 1 primary)
    (costsOperand : Costs limit (fun _ => -17) 5 operand) :
    Costs limit (fun _ => -20) 2 (unaryOver primary operand) := by
  refine .peek_bind fun token => ?_
  cases found : unaryOp? token.kind with
  | none => exact .of_costs (costs.mono (fun _ => by omega) (by omega))
  | some op =>
      refine .advance_bind (by simp [unaryOp?_eq_some_iff.1 found]) ?_
      exact costsOperand.bind (fun _ => .pure (by omega)) (by omega)

theorem costs_unaryWithin {primary : Parser Expr} (costs : Costs limit (fun _ => -21) 1 primary)
    (levels : Nat) : Costs limit (fun _ => -20) 2 (unaryWithin limit primary levels) := by
  induction levels with
  | zero => exact costs_unaryOver costs (.tooDeep (by omega))
  | succ levels induction =>
      refine costs_unaryOver costs (.nested ?_ (by omega))
      exact induction.mono (fun _ => by omega) (by omega)

section

variable {expr : Parser Expr} (costs : Costs limit (fun _ => -6) 5 expr)
  (reads : Reads expr (Derives .expr))

include costs reads

theorem costs_exprs (closing : Symbol) :
    Costs limit (fun _ => -21) 6 (closedList closing expr) := by
  have items : Costs limit (fun _ => -1) (6 - 1) expr := costs.mono (fun _ => by omega) (by omega)
  exact items.closedList (reads.mono fun _ _ _ => trivial) closing (by omega)

/-- An access pays for the level that it opens. -/
theorem costs_access? (object : Expr) :
    Costs limit (fun result => if result = none then 1 else -1) 1 (access? expr object) := by
  refine .peek_bind fun token => ?_
  split
  · next isDot =>
      refine .advance_bind (by simp [isDot]) (.ident_bind (fun _ => .pure ?_) (by omega))
      simp
  · next isBracket =>
      refine .advance_bind (by simp [isBracket]) (costs.bind (fun _ => ?_) (by omega))
      exact .consume_bind (by simp) (fun _ => .pure (by simp)) (by omega)
  · next isParen =>
      refine .advance_bind (by simp [isParen]) ((costs_exprs costs reads _).bind ?_ (by omega))
      exact fun _ => .pure (by simp)
  · exact .of_costs (.pure (by simp))

theorem costs_accessRound (object : Expr) :
    Costs limit (roundPrice fun _ => 1) 1 (accessRound limit expr object) := by
  refine (costs_access? costs reads object).bind (fun result => ?_) (by omega)
  cases result with
  | none => exact .pure (by simp [roundPrice])
  | some value => exact .descend_bind (.pure (by simp [roundPrice])) (by simp)

theorem costs_accesses (root : Expr) : Costs limit (fun _ => 2) 1 (accesses limit expr root) := by
  have rounds := Costs.iterate (progressive_accessRound reads) (costs_accessRound costs reads) root
  exact .levelled (rounds.mono (fun _ => by omega) (by omega))

theorem costs_parenthesized (pos : Position) :
    Costs limit (fun _ => -21) 6 (parenthesized expr pos) := by
  refine (costs_exprs costs reads _).bind (fun list => ?_) (by omega)
  split <;> exact .pure (by omega)

omit reads in
theorem costs_property : Costs limit (fun _ => -50) 1 (property expr) := by
  refine .ident_bind (fun _ => .consume_bind (by simp) (fun _ => ?_) (by omega)) (by omega)
  exact costs.bind (fun _ => .pure (by omega)) (by omega)

theorem costs_primary : Costs limit (fun _ => -21) 1 (primary limit expr) := by
  have properties : Costs limit (fun _ => -21) 6 (closedList .rbrace (property expr)) := by
    have items : Costs limit (fun _ => -1) (6 - 1) (property expr) :=
      (costs_property costs).mono (fun _ => by omega) (by omega)
    exact items.closedList ((reads_property reads).mono fun _ _ _ => trivial) _ (by omega)
  refine .advance_bind (fun token _ => ?_) fun token ended => ?_
  · split
    · exact .pure (by omega)
    · exact .pure (by omega)
    · exact .pure (by omega)
    · exact .pure (by omega)
    · exact (costs_exprs costs reads _).bind (fun _ => .pure (by omega)) (by omega)
    · exact properties.bind (fun _ => .pure (by omega)) (by omega)
    · exact (costs_accesses costs reads _).mono (fun _ => by omega) (by omega)
    · exact (costs_parenthesized costs reads _).mono (fun _ => by omega) (by omega)
    · exact .fail (by omega)
  -- The token that ends the input starts no expression.
  · rw [ended]
    exact .fail (by omega)

theorem costs_ternary : Costs limit (fun _ => -9) 2 (ternary limit expr) := by
  have operators := costs_binary (costs_unaryWithin (costs_primary costs reads) limit)
    (reads_unaryWithin (reads_primary reads) limit) BinaryOp.Level.all (by decide)
  have five : BinaryOp.Level.all.length = 5 := rfl
  rw [five] at operators
  refine operators.bind (fun _ => .take_bind (by simp) ?_ (.pure (by omega))) (by omega)
  refine costs.bind (fun _ => .consume_bind (by simp) (fun _ => ?_) (by omega)) (by omega)
  exact costs.bind (fun _ => .pure (by omega)) (by omega)

end

theorem costs_exprWithin (levels : Nat) :
    Costs limit (fun _ => -6) 5 (exprWithin limit levels) := by
  induction levels with
  | zero => exact .tooDeep (by omega)
  | succ levels induction =>
      refine .nested ?_ (by omega)
      exact (costs_ternary induction (reads_exprWithin limit levels)).mono (fun _ => by omega)
        (by omega)

/-! Statements. -/

theorem costs_atStmtEnd : Costs limit (fun _ => 1) 1 atStmtEnd :=
  .peek_bind fun _ => .of_costs (.pure (by omega))

section

variable {expr : Parser Expr} {block : Parser (List Stmt)}
  (costs : Costs limit (fun _ => -6) 5 expr) (costsBlock : Costs limit (fun _ => -40) 1 block)

include costs

theorem costs_exprStmt (pos : Position) : Costs limit (fun _ => -5) 5 (exprStmt expr pos) := by
  refine costs.bind (fun _ => .take_bind (by simp) ?_ (.pure (by omega))) (by omega)
  exact costs.bind (fun _ => .pure (by omega)) (by omega)

include costsBlock

theorem costs_branchOver {elseBranch : Parser Stmt}
    (costsElse : Costs limit (fun _ => -64) 4 elseBranch) :
    Costs limit (fun _ => -67) 1 (branchOver expr block elseBranch) := by
  refine .consume_bind (by simp) (fun _ => costs.bind (fun _ => ?_) (by omega)) (by omega)
  refine costsBlock.bind (fun _ => .take_bind (by simp) ?_ (.pure (by omega))) (by omega)
  refine .peek_bind fun next => .of_costs ?_
  split
  · exact costsBlock.bind (fun _ => .pure (by omega)) (by omega)
  · exact costsElse.bind (fun _ => .pure (by omega)) (by omega)
  · exact .fail (by omega)

theorem costs_branchWithin (levels : Nat) :
    Costs limit (fun _ => -67) 1 (branchWithin limit expr block levels) := by
  induction levels with
  | zero => exact costs_branchOver costs costsBlock (.tooDeep (by omega))
  | succ levels induction =>
      refine costs_branchOver costs costsBlock (.nested ?_ (by omega))
      exact induction.mono (fun _ => by omega) (by omega)

theorem costs_countingLoop : Costs limit (fun _ => -67) 1 (countingLoop expr block) := by
  have failFor {price : Stmt → Int} {failing : Int} (part : ForPart) (enough : 1 ≤ failing) :
      Costs limit price failing (failFor part) :=
    .peek_bind fun _ => .of_costs (.fail (by omega))
  have body {price failing : Int} {stmt : List Stmt → Stmt} (enough : -40 ≤ price)
      (fails : 1 ≤ failing) :
      Costs limit (fun _ => price) failing (block >>= fun body => pure (stmt body)) :=
    costsBlock.bind (fun _ => .pure (by omega)) fails
  refine .consume_bind (by simp) (fun _ => .peek_bind fun name => ?_) (by omega)
  split
  · exact .of_costs (failFor _ (by omega))
  · next isName =>
      refine .advance_bind (by simp [Decidable.not_not.1 isName]) ?_
      refine .take_bind (by simp) (costs.bind (fun _ => ?_) (by omega)) (failFor _ (by omega))
      refine .takeWord_bind (costs.bind (fun _ => ?_) (by omega)) (failFor _ (by omega))
      refine .takeWord_bind (costs.bind (fun _ => ?_) (by omega)) ?_
      · exact body (by omega) (by omega)
      · simp only [Bool.false_eq_true, if_false, pure_bind]
        exact body (by omega) (by omega)

theorem costs_simpleStmt : Costs limit (fun _ => -4) 6 (simpleStmt expr block) := by
  refine .peek_bind fun token => ?_
  split
  · next isWhile =>
      refine .advance_bind (by simp [isWhile]) (costs.bind (fun _ => ?_) (by omega))
      exact costsBlock.bind (fun _ => .pure (by omega)) (by omega)
  · next isReturn =>
      refine .advance_bind (by simp [isReturn]) ?_
      refine costs_atStmtEnd.bind (fun _ => .ite (fun _ => .pure (by omega)) fun _ => ?_) (by omega)
      exact costs.bind (fun _ => .pure (by omega)) (by omega)
  · next isBreak => exact .advance_bind (by simp [isBreak]) (.pure (by omega))
  · next isContinue => exact .advance_bind (by simp [isContinue]) (.pure (by omega))
  · exact .of_costs ((costs_exprStmt costs _).mono (fun _ => by omega) (by omega))

end

theorem costs_stmt {block : Parser (List Stmt)} (costs : Costs limit (fun _ => -40) 1 block) :
    Costs limit (fun _ => -2) 7 (stmt limit block) := by
  have costsExpr := @costs_exprWithin limit limit
  refine .peek_bind fun token => .of_costs ?_
  split
  · exact (costs_branchWithin costsExpr costs limit).mono (fun _ => by omega) (by omega)
  · exact (costs_countingLoop costsExpr costs).mono (fun _ => by omega) (by omega)
  · refine (costs_simpleStmt costsExpr costs).bind (fun _ => ?_) (by omega)
    exact .take_bind (by simp) (.pure (by omega)) (.pure (by omega))

theorem costs_blockOf {statements : Parser (List Stmt)}
    (costs : Costs limit (fun _ => 4) 11 statements) :
    Costs limit (fun _ => -40) 1 (blockOf statements) := by
  refine .consume_bind (by simp) (fun _ => costs.bind (fun _ => ?_) (by omega)) (by omega)
  exact .consume_bind (by simp) (fun _ => .pure (by omega)) (by omega)

theorem costs_blockWithin (levels : Nat) :
    Costs limit (fun _ => -40) 1 (blockWithin limit levels) := by
  induction levels with
  | zero => exact costs_blockOf (.tooDeep (by omega))
  | succ levels induction =>
      have items : Costs limit (fun _ => -1) (8 - 1) (stmt limit (blockWithin limit levels)) :=
        (costs_stmt induction).mono (fun _ => by omega) (by omega)
      have reads : Reads (stmt limit (blockWithin limit levels)) fun _ _ => True :=
        (reads_stmt (reads_blockWithin limit levels)).mono fun _ _ _ => trivial
      refine costs_blockOf (.nested ?_ (by omega))
      exact (items.many reads _).mono (fun _ => by omega) (by omega)

/-! Declarations. -/

theorem costs_storageLocation? : Costs limit (fun _ => 2) 1 storageLocation? := by
  refine .take_bind (by simp) (.pure (by omega)) ?_
  exact .take_bind (by simp) (.pure (by omega)) (.pure (by omega))

theorem costs_typedName : Costs limit (fun _ => -64) 1 (typedName limit) := by
  refine .ident_bind (fun _ => .consume_bind (by simp) (fun _ => ?_) (by omega)) (by omega)
  exact (costs_typeWithin limit).bind (fun _ => .pure (by omega)) (by omega)

theorem costs_stateVar : Costs limit (fun _ => -84) 1 (stateVar limit) := by
  refine costs_typedName.bind (fun _ => costs_storageLocation?.bind (fun _ => ?_) ?_) (by omega)
  · exact .consume_bind (by simp) (fun _ => .pure (by omega)) (by omega)
  · omega

theorem costs_field : Costs limit (fun _ => -86) 1 (field limit) := by
  refine costs_typedName.bind (fun _ => ?_) (by omega)
  exact .consume_bind (by simp) (fun _ => .pure (by omega)) (by omega)

theorem costs_struct : Costs limit (fun _ => -87) 1 (struct limit) := by
  have fields : Costs limit (fun _ => -1) (2 - 1) (field limit) :=
    costs_field.mono (fun _ => by omega) (by omega)
  have reads : Reads (field limit) fun _ _ => True := reads_field.mono fun _ _ _ => trivial
  refine .consume_bind (by simp) (fun _ => .ident_bind (fun _ => ?_) (by omega)) (by omega)
  refine .consume_bind (by simp) (fun _ => (fields.many reads _).bind ?_ (by omega)) (by omega)
  exact fun _ => .consume_bind (by simp) (fun _ => .pure (by omega)) (by omega)

theorem costs_parameter : Costs limit (fun _ => -63) 1 (parameter limit) := by
  refine costs_typedName.bind (fun _ => .take_bind (by simp) ?_ (.pure (by omega))) (by omega)
  exact (costs_exprWithin limit).bind (fun _ => .pure (by omega)) (by omega)

theorem costs_modifierRound (modifiers : Modifiers) :
    Costs limit (roundPrice fun _ => 1) 1 (modifierRound modifiers) := by
  refine .peek_bind fun token => ?_
  cases found : modifier? token.kind with
  | none => exact .of_costs (.pure (by simp [roundPrice]))
  | some modifier =>
      have going : token.kind ≠ .eof := by simp [modifier?_eq_some_iff.1 found]
      by_cases repeated : modifiers.has modifier
      · simp only [if_pos repeated]
        exact .of_costs (.fail (by omega))
      · simp only [if_neg repeated]
        exact .advance_bind going (.pure (by simp [roundPrice]))

theorem costs_modifiers : Costs limit (fun _ => 1) 1 modifiers :=
  Costs.iterate progressive_modifierRound costs_modifierRound _

theorem costs_returnType? : Costs limit (fun _ => 1) 1 returnType? := by
  have names : Costs limit (fun _ => -1) (2 - 1) ident :=
    costs_ident.mono (fun _ => by omega) (by omega)
  have list := names.closedList (reads_ident.mono fun _ _ _ => trivial) .rparen (by omega)
  refine .take_bind (by simp) (.take_bind (by simp) ?_ ?_) (.pure (by omega))
  · exact list.bind (fun _ => .pure (by omega)) (by omega)
  · exact .ident_bind (fun _ => .pure (by omega)) (by omega)

theorem costs_function : Costs limit (fun _ => -125) 1 (function limit) := by
  have parameters : Costs limit (fun _ => -1) (2 - 1) (parameter limit) :=
    costs_parameter.mono (fun _ => by omega) (by omega)
  have list := parameters.closedList (reads_parameter.mono fun _ _ _ => trivial) .rparen (by omega)
  refine .consume_bind (by simp) (fun _ => .ident_bind (fun _ => ?_) (by omega)) (by omega)
  refine .consume_bind (by simp) (fun _ => list.bind (fun _ => ?_) (by omega)) (by omega)
  refine costs_modifiers.bind (fun _ => costs_returnType?.bind (fun _ => ?_) (by omega)) (by omega)
  exact (costs_blockWithin limit).bind (fun _ => .pure (by omega)) (by omega)

theorem costs_member : Costs limit (fun _ => -83) 2 (member limit) := by
  refine .peek_bind fun token => .of_costs ?_
  split
  · exact costs_function.bind (fun _ => .pure (by omega)) (by omega)
  · exact costs_struct.bind (fun _ => .pure (by omega)) (by omega)
  · exact costs_stateVar.bind (fun _ => .pure (by omega)) (by omega)

theorem costs_contract : Costs limit (fun _ => -87) 1 (contract limit) := by
  have members : Costs limit (fun _ => -1) (3 - 1) (member limit) :=
    costs_member.mono (fun _ => by omega) (by omega)
  have reads : Reads (member limit) fun _ _ => True := reads_member.mono fun _ _ _ => trivial
  refine .consume_bind (by simp) (fun _ => .ident_bind (fun _ => ?_) (by omega)) (by omega)
  refine .consume_bind (by simp) (fun _ => (members.many reads _).bind ?_ (by omega)) (by omega)
  exact fun _ => .consume_bind (by simp) (fun _ => .pure (by omega)) (by omega)

/-! Whole inputs. -/

theorem costs_program : Costs limit (fun _ => 3) 3 (program limit) := by
  have contracts : Costs limit (fun _ => -1) (2 - 1) (contract limit) :=
    costs_contract.mono (fun _ => by omega) (by omega)
  have reads : Reads (contract limit) fun _ _ => True := reads_contract.mono fun _ _ _ => trivial
  refine (contracts.many reads _).bind (fun _ => ?_) (by omega)
  refine .consume_eof_bind (fun _ => ?_) (by omega)
  exact .ite (fun _ => .fail (by omega)) fun _ => .pure (by omega)

theorem costs_wholeExpr : Costs limit (fun _ => -4) 5 (wholeExpr limit) := by
  refine (costs_exprWithin limit).bind (fun _ => ?_) (by omega)
  exact .consume_eof_bind (fun _ => .pure (by omega)) (by omega)

/-! All routines together. -/

/-- What stands between commas. -/
inductive ListItem (limit : Nat) : {α : Type} → Parser α → Prop where
  | expr (levels : Nat) : ListItem limit (exprWithin limit levels)
  | property (levels : Nat) : ListItem limit (property (exprWithin limit levels))
  | parameter : ListItem limit (parameter limit)
  | name : ListItem limit ident

/-- What follows one another up to a closing token. -/
inductive RepeatedItem (limit : Nat) : {α : Type} → Parser α → Prop where
  | contract : RepeatedItem limit (contract limit)
  | member : RepeatedItem limit (member limit)
  | field : RepeatedItem limit (field limit)
  | stmt (levels : Nat) : RepeatedItem limit (stmt limit (blockWithin limit levels))

/-- The routines for whole inputs, and all those that they are made of. -/
inductive Routine (limit : Nat) : {α : Type} → Parser α → Prop where
  | program : Routine limit (program limit)
  | wholeExpr : Routine limit (wholeExpr limit)
  | listItem {α : Type} {item : Parser α} : ListItem limit item → Routine limit item
  | repeatedItem {α : Type} {item : Parser α} : RepeatedItem limit item → Routine limit item
  | commaList {α : Type} {item : Parser α} (closing : Token.Kind) :
      ListItem limit item → Routine limit (commaList closing item)
  | closedList {α : Type} {item : Parser α} (closing : Symbol) :
      ListItem limit item → Routine limit (closedList closing item)
  | many {α : Type} {item : Parser α} (closing : Token.Kind) :
      RepeatedItem limit item → Routine limit (many closing item)
  -- Declarations.
  | stateVar : Routine limit (stateVar limit)
  | struct : Routine limit (struct limit)
  | function : Routine limit (function limit)
  | typedName : Routine limit (typedName limit)
  | storageLocation? : Routine limit storageLocation?
  | modifiers : Routine limit modifiers
  | returnType? : Routine limit returnType?
  -- Types.
  | type (levels : Nat) : Routine limit (typeWithin limit levels)
  | mapping (levels : Nat) : Routine limit (mappingOf (typeWithin limit levels))
  | arrayType : Routine limit arrayType
  -- Blocks and statements.
  | block (levels : Nat) : Routine limit (blockWithin limit levels)
  | branch (levels chain : Nat) :
      Routine limit (branchWithin limit (expr limit) (blockWithin limit levels) chain)
  | countingLoop (levels : Nat) :
      Routine limit (countingLoop (expr limit) (blockWithin limit levels))
  | simpleStmt (levels : Nat) : Routine limit (simpleStmt (expr limit) (blockWithin limit levels))
  | exprStmt (pos : Position) : Routine limit (exprStmt (expr limit) pos)
  -- Expressions, the loosest first.
  | ternary (levels : Nat) : Routine limit (ternary limit (exprWithin limit levels))
  | binary (levels operators : Nat) {tighter : List BinaryOp.Level} :
      tighter <:+ BinaryOp.Level.all →
        Routine limit
          (binary limit (unaryWithin limit (primary limit (exprWithin limit levels)) operators)
            tighter)
  | unary (levels operators : Nat) :
      Routine limit (unaryWithin limit (primary limit (exprWithin limit levels)) operators)
  | primary (levels : Nat) : Routine limit (primary limit (exprWithin limit levels))
  | accesses (levels : Nat) (root : Expr) :
      Routine limit (accesses limit (exprWithin limit levels) root)
  | parenthesized (levels : Nat) (pos : Position) :
      Routine limit (parenthesized (exprWithin limit levels) pos)

section

variable {α : Type} {routine item : Parser α}

namespace ListItem

theorem balanced (listed : ListItem limit item) : Balanced item := by
  cases listed with
  | expr levels => exact balanced_exprWithin limit levels
  | property levels => exact balanced_property (balanced_exprWithin limit levels)
  | parameter => exact balanced_parameter limit
  | name => exact .ident

theorem reads (listed : ListItem limit item) : Reads item fun _ _ => True := by
  cases listed with
  | expr levels => exact (reads_exprWithin limit levels).mono fun _ _ _ => trivial
  | property levels =>
      exact (reads_property (reads_exprWithin limit levels)).mono fun _ _ _ => trivial
  | parameter => exact reads_parameter.mono fun _ _ _ => trivial
  | name => exact reads_ident.mono fun _ _ _ => trivial

theorem costs (listed : ListItem limit item) : Costs limit (fun _ => -1) (6 - 1) item := by
  cases listed with
  | expr levels => exact (costs_exprWithin levels).mono (fun _ => by omega) (by omega)
  | property levels =>
      exact (costs_property (costs_exprWithin levels)).mono (fun _ => by omega) (by omega)
  | parameter => exact costs_parameter.mono (fun _ => by omega) (by omega)
  | name => exact costs_ident.mono (fun _ => by omega) (by omega)

end ListItem

namespace RepeatedItem

theorem balanced (repeated : RepeatedItem limit item) : Balanced item := by
  cases repeated with
  | contract => exact balanced_contract limit
  | member => exact balanced_member limit
  | field => exact balanced_field limit
  | stmt levels => exact balanced_stmt (balanced_blockWithin limit levels) limit

theorem reads (repeated : RepeatedItem limit item) : Reads item fun _ _ => True := by
  cases repeated with
  | contract => exact reads_contract.mono fun _ _ _ => trivial
  | member => exact reads_member.mono fun _ _ _ => trivial
  | field => exact reads_field.mono fun _ _ _ => trivial
  | stmt levels => exact (reads_stmt (reads_blockWithin limit levels)).mono fun _ _ _ => trivial

theorem costs (repeated : RepeatedItem limit item) : Costs limit (fun _ => -1) (8 - 1) item := by
  cases repeated with
  | contract => exact costs_contract.mono (fun _ => by omega) (by omega)
  | member => exact costs_member.mono (fun _ => by omega) (by omega)
  | field => exact costs_field.mono (fun _ => by omega) (by omega)
  | stmt levels => exact (costs_stmt (costs_blockWithin levels)).mono (fun _ => by omega) (by omega)

end RepeatedItem

namespace Routine

theorem balanced (isRoutine : Routine limit routine) : Balanced routine := by
  have ofExpr (levels : Nat) := balanced_exprWithin limit levels
  have ofPrimary (levels : Nat) := balanced_primary (ofExpr levels) limit
  have ofBlock (levels : Nat) := balanced_blockWithin limit levels
  cases isRoutine with
  | program => exact balanced_program limit
  | wholeExpr => exact balanced_wholeExpr limit
  | listItem listed => exact listed.balanced
  | repeatedItem repeated => exact repeated.balanced
  | commaList closing listed => exact listed.balanced.commaList closing
  | closedList closing listed => exact listed.balanced.closedList closing
  | many closing repeated => exact repeated.balanced.many closing
  | stateVar => exact balanced_stateVar limit
  | struct => exact balanced_struct limit
  | function => exact balanced_function limit
  | typedName => exact balanced_typedName limit
  | storageLocation? => exact balanced_storageLocation?
  | modifiers => exact balanced_modifiers
  | returnType? => exact balanced_returnType?
  | type levels => exact balanced_typeWithin limit levels
  | mapping levels => exact balanced_mappingOf (balanced_typeWithin limit levels)
  | arrayType => exact balanced_arrayType
  | block levels => exact ofBlock levels
  | branch levels chain => exact balanced_branchWithin (ofExpr limit) (ofBlock levels) limit chain
  | countingLoop levels => exact balanced_countingLoop (ofExpr limit) (ofBlock levels)
  | simpleStmt levels => exact balanced_simpleStmt (ofExpr limit) (ofBlock levels)
  | exprStmt pos => exact balanced_exprStmt (ofExpr limit) pos
  | ternary levels => exact balanced_ternary (ofExpr levels) limit
  | binary levels operators _ =>
      exact balanced_binary (balanced_unaryWithin (ofPrimary levels) limit operators) limit _
  | unary levels operators => exact balanced_unaryWithin (ofPrimary levels) limit operators
  | primary levels => exact ofPrimary levels
  | accesses levels root => exact .levelled _
  | parenthesized levels pos => exact balanced_parenthesized (ofExpr levels) pos

theorem costs (isRoutine : Routine limit routine) :
    ∃ price failing, Costs limit price failing routine := by
  have ofExpr (levels : Nat) := @costs_exprWithin limit levels
  have reads (levels : Nat) := reads_exprWithin limit levels
  have ofPrimary (levels : Nat) := costs_primary (ofExpr levels) (reads levels)
  have ofBlock (levels : Nat) := @costs_blockWithin limit levels
  cases isRoutine with
  | program => exact ⟨_, _, costs_program⟩
  | wholeExpr => exact ⟨_, _, costs_wholeExpr⟩
  | listItem listed => exact ⟨_, _, listed.costs⟩
  | repeatedItem repeated => exact ⟨_, _, repeated.costs⟩
  | commaList closing listed => exact ⟨_, _, listed.costs.commaList listed.reads closing⟩
  | closedList closing listed =>
      exact ⟨_, _, listed.costs.closedList listed.reads closing (by omega)⟩
  | many closing repeated => exact ⟨_, _, repeated.costs.many repeated.reads closing⟩
  | stateVar => exact ⟨_, _, costs_stateVar⟩
  | struct => exact ⟨_, _, costs_struct⟩
  | function => exact ⟨_, _, costs_function⟩
  | typedName => exact ⟨_, _, costs_typedName⟩
  | storageLocation? => exact ⟨_, _, costs_storageLocation?⟩
  | modifiers => exact ⟨_, _, costs_modifiers⟩
  | returnType? => exact ⟨_, _, costs_returnType?⟩
  | type levels => exact ⟨_, _, costs_typeWithin levels⟩
  | mapping levels => exact ⟨_, _, costs_mappingOf (costs_typeWithin levels)⟩
  | arrayType => exact ⟨_, _, costs_arrayType⟩
  | block levels => exact ⟨_, _, ofBlock levels⟩
  | branch levels chain => exact ⟨_, _, costs_branchWithin (ofExpr limit) (ofBlock levels) chain⟩
  | countingLoop levels => exact ⟨_, _, costs_countingLoop (ofExpr limit) (ofBlock levels)⟩
  | simpleStmt levels => exact ⟨_, _, costs_simpleStmt (ofExpr limit) (ofBlock levels)⟩
  | exprStmt pos => exact ⟨_, _, costs_exprStmt (ofExpr limit) pos⟩
  | ternary levels => exact ⟨_, _, costs_ternary (ofExpr levels) (reads levels)⟩
  | binary levels operators tighter =>
      have operand := costs_unaryWithin (ofPrimary levels) operators
      refine ⟨_, _, costs_binary operand ?_ _ tighter.length_le⟩
      exact reads_unaryWithin (reads_primary (reads levels)) operators
  | unary levels operators => exact ⟨_, _, costs_unaryWithin (ofPrimary levels) operators⟩
  | primary levels => exact ⟨_, _, ofPrimary levels⟩
  | accesses levels root => exact ⟨_, _, costs_accesses (ofExpr levels) (reads levels) root⟩
  | parenthesized levels pos =>
      exact ⟨_, _, costs_parenthesized (ofExpr levels) (reads levels) pos⟩

theorem exists_run (isRoutine : Routine limit routine) (state : State) :
    ∃ moments, Runs limit routine state moments (routine state) := by
  obtain ⟨_, _, costs⟩ := isRoutine.costs
  obtain ⟨-, moments, run, -⟩ := costs state
  exact ⟨moments, run⟩

end Routine

/-- The levels are kept in balance. A routine that succeeds leaves as many open as it has found.
Each routine has a run that ends as the routine does; at no moment of a run are more levels open
than the limit allows, and where a level is closed after a nested routine, whether that has
succeeded or failed, there is one. -/
theorem depth_bookkeeping (isRoutine : Routine limit routine) {state : State}
    (within : state.depth ≤ limit) :
    (∀ value after, routine state = .ok value after → after.depth = state.depth) ∧
      (∃ moments, Runs limit routine state moments (routine state)) ∧
      ∀ moments result, Runs limit routine state moments result →
        (∀ moment ∈ moments, moment.state.depth ≤ limit) ∧
          ∀ inner, .closing inner ∈ moments → 1 ≤ inner.depth := by
  refine ⟨fun _ _ succeeds => isRoutine.balanced succeeds, isRoutine.exists_run state, ?_⟩
  intro moments result run
  refine ⟨(run.depth_le within).2, fun inner closing => ?_⟩
  exact Nat.le_trans (Nat.succ_le_succ (Nat.zero_le _)) (run.le_depth.2 inner closing)

end

/-- Where two levels are allowed, an expression with one operator is read and leaves none open. A
second operator finds no level, and both levels that are open are closed after the failure. -/
theorem depth_bookkeeping_operators :
    let minus : Token := ⟨.symbol .minus, "-", .ofBounds 0 1, .start⟩
    let one : Token := ⟨.number, "1", .ofBounds 1 2, .start⟩
    (∃ value after, exprWithin 2 2 ⟨[minus, one], 0⟩ = .ok value after ∧ after.depth = 0) ∧
      ∃ moments, Runs 2 (exprWithin 2 2) ⟨[minus, minus], 0⟩ moments
          (.error (.resource (.nestingTooDeep 2)) ⟨[], 0⟩) ∧
        .closing ⟨[], 2⟩ ∈ moments ∧ .closing ⟨[], 1⟩ ∈ moments ∧
        (∀ moment ∈ moments, moment.state.depth ≤ 2) ∧
        ∀ inner, .closing inner ∈ moments → 1 ≤ inner.depth := by
  intro minus one
  have balanced (tokens : List Token) :=
    @depth_bookkeeping 2 _ _ (.listItem (.expr 2)) ⟨tokens, 0⟩ (Nat.zero_le 2)
  have going (rest : List Token) (depth : Nat) :
      (State.mk (minus :: rest) depth).next.kind ≠ .eof := by
    simp [State.next, minus]
  have operators : ∃ moments, Runs 2 (unaryWithin 2 (primary 2 (exprWithin 2 1)) 2)
      ⟨[minus, minus], 1⟩ moments (.error (.resource (.nestingTooDeep 2)) ⟨[], 1⟩) ∧
      .closing ⟨[], 2⟩ ∈ moments := by
    have second : Runs 2 (unaryWithin 2 (primary 2 (exprWithin 2 1)) 1) ⟨[minus], 2⟩ _
        (.error (.resource (.nestingTooDeep 2)) ⟨[], 2⟩) :=
      .bind (.peek _) (.bind (.advance (going [] 2)) (.bind_error (.nested_full (Nat.le_refl 2))))
    have first := @Runs.nested_error 2 _ _ ⟨[minus], 1⟩ _ _ _ (Nat.lt_succ_self 1) second
    exact ⟨_, .bind (.peek _) (.bind (.advance (going [minus] 1)) (.bind_error first)), by simp⟩
  obtain ⟨inside, operators, closes⟩ := operators
  have run : Runs 2 (exprWithin 2 2) ⟨[minus, minus], 0⟩
      (.step ⟨[minus, minus], 1⟩ :: (inside ++ [.closing ⟨[], 1⟩, .step ⟨[], 0⟩]))
      (.error (.resource (.nestingTooDeep 2)) ⟨[], 0⟩) := by
    refine .nested_error (by decide) (.bind_error ?_)
    iterate 5 refine .levelled_error (.bind_error ?_)
    exact operators
  refine ⟨⟨_, _, rfl, (balanced [minus, one]).1 _ _ rfl⟩, _, run, by simp [closes], by simp, ?_⟩
  exact (balanced [minus, minus]).2.2 _ _ run

end Covenant.Parser
