import Covenant.Proofs.Checked.Agreement

/-! The checked parser does what the plain one does, routine by routine. -/

namespace Covenant.Checked

variable {source : String}

/-! Types. -/

theorem agrees_arrayType : Agrees source (Routine.arrayType source) Parser.arrayType := by
  refine Agrees.ident.bind fun name => .lift (.iterate (fun type => ?_) _)
  exact (Parser.Steady.take _).bind fun _ =>
    .ite ((Parser.Steady.consume _).bind fun _ => .pure _) (.pure _)

theorem agrees_typeWithin (limit levels : Nat) :
    Agrees source (Routine.typeWithin source limit levels) (Parser.typeWithin limit levels) := by
  induction levels with
  | zero => exact (Agrees.isWord _).bind fun _ => .ite (.throw _) agrees_arrayType
  | succ levels induction =>
      refine (Agrees.isWord _).bind fun _ => .ite (.nested ?_ _) agrees_arrayType
      refine (Agrees.lift .advance).bind fun _ => (Agrees.consume _).bind fun _ => ?_
      refine Agrees.ident.bind fun _ => (Agrees.consume _).bind fun _ => ?_
      exact induction.bind fun _ => (Agrees.consume _).bind fun _ => .pure _

/-! Expressions. -/

section

variable {operand : Routine Expr} {plainOperand : Parser Expr}
variable (agrees : Agrees source operand plainOperand)

include agrees

theorem agrees_operatorRound (limit : Nat) (level : BinaryOp.Level) (left : Expr) :
    Agrees source (Routine.operatorRound limit level operand left)
      (Parser.operatorRound limit level plainOperand left) := by
  refine Agrees.peek_bind fun token _ => ?_
  cases Parser.binaryOp? level token.kind with
  | none => exact .pure _
  | some op =>
      refine (Agrees.lift (.descend limit)).bind fun _ => (Agrees.lift .advance).bind fun _ => ?_
      exact agrees.bind fun _ => .pure _

theorem agrees_binary (limit : Nat) (levels : List BinaryOp.Level) :
    Agrees source (Routine.binary limit operand levels)
      (Parser.binary limit plainOperand levels) := by
  induction levels with
  | nil => exact agrees
  | cons level levels induction =>
      refine Agrees.levelled (induction.bind fun first => ?_)
      exact .iterate (agrees_operatorRound induction limit level) first

end

theorem agrees_unaryOver {primary operand : Routine Expr} {plainPrimary plainOperand : Parser Expr}
    (agrees : Agrees source primary plainPrimary)
    (agreesOperand : Agrees source operand plainOperand) :
    Agrees source (Routine.unaryOver primary operand)
      (Parser.unaryOver plainPrimary plainOperand) := by
  refine Agrees.peek_bind fun token _ => ?_
  cases Parser.unaryOp? token.kind with
  | none => exact agrees
  | some op => exact (Agrees.lift .advance).bind fun _ => agreesOperand.bind fun _ => .pure _

theorem agrees_unaryWithin {primary : Routine Expr} {plainPrimary : Parser Expr}
    (agrees : Agrees source primary plainPrimary) (limit levels : Nat) :
    Agrees source (Routine.unaryWithin limit primary levels)
      (Parser.unaryWithin limit plainPrimary levels) := by
  induction levels with
  | zero => exact agrees_unaryOver agrees (.throw _)
  | succ levels induction => exact agrees_unaryOver agrees (induction.nested limit)

section

variable {expr : Routine Expr} {plainExpr : Parser Expr} (agrees : Agrees source expr plainExpr)

include agrees

theorem agrees_access? (object : Expr) :
    Agrees source (Routine.access? source expr object) (Parser.access? plainExpr object) := by
  refine Agrees.peek_bind fun token _ => ?_
  generalize token.kind = kind
  cases kind with
  | symbol sign =>
      cases sign
      case dot => exact (Agrees.lift .advance).bind fun _ => Agrees.ident.bind fun _ => .pure _
      case lbracket =>
        exact (Agrees.lift .advance).bind fun _ => agrees.bind fun _ =>
          (Agrees.consume _).bind fun _ => .pure _
      case lparen =>
        exact (Agrees.lift .advance).bind fun _ => (agrees.closedList _).bind fun _ => .pure _
      all_goals exact .pure _
  | _ => exact .pure _

end

/-- Whatever has just been read as an access is one. -/
theorem placeAccess_of_access? {expr : Parser Expr} {object access : Expr}
    {state after : Parser.State}
    (ran : Parser.access? expr object state = .ok (some access) after) :
    Routine.placeAccess access = .ok access := by
  obtain ⟨token, between, -, chosen⟩ := Parser.bind_eq_ok_iff.1 ran
  generalize token.kind = kind at chosen
  cases kind with
  | symbol sign =>
      cases sign
      case dot =>
        obtain ⟨_, _, -, named⟩ := Parser.bind_eq_ok_iff.1 chosen
        obtain ⟨_, _, -, built⟩ := Parser.bind_eq_ok_iff.1 named
        cases built
        rfl
      case lbracket =>
        obtain ⟨_, _, -, indexed⟩ := Parser.bind_eq_ok_iff.1 chosen
        obtain ⟨_, _, -, closed⟩ := Parser.bind_eq_ok_iff.1 indexed
        obtain ⟨_, _, -, built⟩ := Parser.bind_eq_ok_iff.1 closed
        cases built
        rfl
      case lparen =>
        obtain ⟨_, _, -, called⟩ := Parser.bind_eq_ok_iff.1 chosen
        obtain ⟨_, _, -, built⟩ := Parser.bind_eq_ok_iff.1 called
        cases built
        rfl
      all_goals cases chosen
  | _ => cases chosen

section

variable {expr : Routine Expr} {plainExpr : Parser Expr} (agrees : Agrees source expr plainExpr)

include agrees

theorem agrees_accesses (limit : Nat) (root : Expr) :
    Agrees source (Routine.accesses source limit expr root)
      (Parser.accesses limit plainExpr root) := by
  refine Agrees.levelled (.iterate (fun object => ?_) root)
  refine (agrees_access? agrees object).bind_of fun _ result _ _ ran => ?_
  cases result with
  | none => exact .pure _
  | some access =>
      refine (Agrees.lift (.descend limit)).bind fun _ => ?_
      exact .step_bind (placeAccess_of_access? ran) (.pure _)

theorem agrees_parenthesized (pos : Position) :
    Agrees source (Routine.parenthesized expr pos) (Parser.parenthesized plainExpr pos) := by
  refine (agrees.closedList _).bind fun list => ?_
  rcases list with ⟨_ | ⟨inner, _ | ⟨second, more⟩⟩, _ | _⟩ <;> exact .pure _

theorem agrees_property :
    Agrees source (Routine.property source expr) (Parser.property plainExpr) :=
  Agrees.ident.bind fun _ => (Agrees.consume _).bind fun _ => agrees.bind fun _ => .pure _

theorem agrees_primary (limit : Nat) :
    Agrees source (Routine.primary source limit expr) (Parser.primary limit plainExpr) := by
  refine Agrees.advance_bind fun token faithful => ?_
  cases isKind : token.kind with
  | number => exact .step_bind (faithful.textOf isKind) (.pure _)
  | string escaped => exact .step_bind (faithful.string escaped isKind) (.pure _)
  | identifier => exact .step_bind (faithful.textOf isKind) (agrees_accesses agrees limit _)
  | keyword word =>
      cases word
      case true_ | false_ => exact .pure _
      all_goals exact .throw _
  | symbol sign =>
      cases sign
      case lbracket => exact (agrees.closedList _).bind fun _ => .pure _
      case lbrace => exact ((agrees_property agrees).closedList _).bind fun _ => .pure _
      case lparen => exact agrees_parenthesized agrees token.pos
      all_goals exact .throw _
  | eof => exact .throw _

end

theorem agrees_exprWithin (limit levels : Nat) :
    Agrees source (Routine.exprWithin source limit levels) (Parser.exprWithin limit levels) := by
  induction levels with
  | zero => exact .throw _
  | succ levels induction =>
      have operand := agrees_unaryWithin (agrees_primary induction limit) limit limit
      refine .nested ((agrees_binary operand limit _).bind fun _ => ?_) limit
      refine (Agrees.take _).bind fun _ => .ite ?_ (.pure _)
      exact induction.bind fun _ => (Agrees.consume _).bind fun _ => induction.bind fun _ => .pure _

/-! Statements. -/

section

variable {expr : Routine Expr} {plainExpr : Parser Expr} {block : Routine (List Stmt)}
variable {plainBlock : Parser (List Stmt)} (agrees : Agrees source expr plainExpr)
variable (agreesBlock : Agrees source block plainBlock)

include agrees agreesBlock

theorem agrees_branchOver {branch : Routine Stmt} {plainBranch : Parser Stmt}
    (agreesBranch : Agrees source branch plainBranch) :
    Agrees source (Routine.branchOver expr block branch)
      (Parser.branchOver plainExpr plainBlock plainBranch) := by
  refine (Agrees.consume _).bind fun token => agrees.bind fun _ => agreesBlock.bind fun _ => ?_
  refine (Agrees.take _).bind fun _ => .ite (Agrees.peek_bind fun next _ => ?_) (.pure _)
  cases next.kind with
  | symbol sign =>
      cases sign
      case lbrace => exact agreesBlock.bind fun _ => .pure _
      all_goals exact .throw _
  | keyword word =>
      cases word
      case if_ => exact agreesBranch.bind fun _ => .pure _
      all_goals exact .throw _
  | _ => exact .throw _

theorem agrees_branchWithin (limit levels : Nat) :
    Agrees source (Routine.branchWithin limit expr block levels)
      (Parser.branchWithin limit plainExpr plainBlock levels) := by
  induction levels with
  | zero => exact agrees_branchOver agrees agreesBlock (.throw _)
  | succ levels induction => exact agrees_branchOver agrees agreesBlock (induction.nested limit)

theorem agrees_countingLoop :
    Agrees source (Routine.countingLoop source expr block)
      (Parser.countingLoop plainExpr plainBlock) := by
  have failFor : ∀ part, Agrees source (liftM (Parser.failFor part : Parser Stmt))
      (Parser.failFor part) := fun part => .lift (Parser.Steady.peek.bind fun _ => .throw _)
  refine (Agrees.consume _).bind fun token => Agrees.peek_bind fun name faithful => ?_
  by_cases isName : name.kind = .identifier
  · rw [if_neg (not_not_intro isName), if_neg (not_not_intro isName)]
    refine (Agrees.lift .advance).bind fun _ => .step_bind (faithful.textOf isName) ?_
    refine (Agrees.take _).bind fun _ => .ite (failFor _) ?_
    refine agrees.bind fun _ => (Agrees.takeWord _).bind fun _ => .ite (failFor _) ?_
    refine agrees.bind fun _ => (Agrees.takeWord _).bind fun _ => .ite ?_ ?_
    · exact agrees.bind fun _ => agreesBlock.bind fun _ => .pure _
    · exact (Agrees.pure _).bind fun _ => agreesBlock.bind fun _ => .pure _
  · rw [if_pos isName, if_pos isName]
    exact failFor _

theorem agrees_simpleStmt :
    Agrees source (Routine.simpleStmt expr block) (Parser.simpleStmt plainExpr plainBlock) := by
  refine Agrees.peek_bind fun token _ => ?_
  have other : Agrees source (Routine.exprStmt expr token.pos)
      (Parser.exprStmt plainExpr token.pos) :=
    agrees.bind fun _ => (Agrees.take _).bind fun _ => .ite (agrees.bind fun _ => .pure _) (.pure _)
  cases token.kind with
  | keyword word =>
      cases word
      case while_ =>
        exact (Agrees.lift .advance).bind fun _ => agrees.bind fun _ =>
          agreesBlock.bind fun _ => .pure _
      case return_ =>
        refine (Agrees.lift .advance).bind fun _ => ?_
        refine (Agrees.lift (Parser.Steady.peek.bind fun _ => .pure _)).bind fun _ => ?_
        exact .ite (.pure _) (agrees.bind fun _ => .pure _)
      case break_ | continue_ => exact (Agrees.lift .advance).bind fun _ => .pure _
      all_goals exact other
  | _ => exact other

end

theorem agrees_stmt {block : Routine (List Stmt)} {plainBlock : Parser (List Stmt)}
    (agrees : Agrees source block plainBlock) (limit : Nat) :
    Agrees source (Routine.stmt source limit block) (Parser.stmt limit plainBlock) := by
  have agreesExpr : Agrees source (Routine.expr source limit) (Parser.expr limit) :=
    agrees_exprWithin limit limit
  refine Agrees.peek_bind fun token _ => ?_
  have other : Agrees source
      (do
        let statement ← Routine.simpleStmt (Routine.expr source limit) block
        let _ ← Parser.take (.symbol .semicolon)
        return statement)
      (do
        let statement ← Parser.simpleStmt (Parser.expr limit) plainBlock
        let _ ← Parser.take (.symbol .semicolon)
        return statement) :=
    (agrees_simpleStmt agreesExpr agrees).bind fun _ => (Agrees.take _).bind fun _ => .pure _
  cases token.kind with
  | keyword word =>
      cases word
      case if_ => exact agrees_branchWithin agreesExpr agrees limit limit
      case for_ => exact agrees_countingLoop agreesExpr agrees
      all_goals exact other
  | _ => exact other

theorem agrees_blockWithin (limit levels : Nat) :
    Agrees source (Routine.blockWithin source limit levels) (Parser.blockWithin limit levels) := by
  have blockOf {statements : Routine (List Stmt)} {plain : Parser (List Stmt)}
      (agrees : Agrees source statements plain) :
      Agrees source (Routine.blockOf statements) (Parser.blockOf plain) :=
    (Agrees.consume _).bind fun _ => agrees.bind fun _ => (Agrees.consume _).bind fun _ => .pure _
  induction levels with
  | zero => exact blockOf (.throw _)
  | succ levels induction => exact blockOf (((agrees_stmt induction limit).many _).nested limit)

/-! Declarations. -/

theorem agrees_typedName (limit : Nat) :
    Agrees source (Routine.typedName source limit) (Parser.typedName limit) :=
  Agrees.ident.bind fun _ => (Agrees.consume _).bind fun _ =>
    (agrees_typeWithin limit limit).bind fun _ => .pure _

theorem agrees_stateVar (limit : Nat) :
    Agrees source (Routine.stateVar source limit) (Parser.stateVar limit) := by
  have location : Parser.Steady Parser.storageLocation? :=
    (Parser.Steady.take _).bind fun _ => .ite (.pure _)
      ((Parser.Steady.take _).bind fun _ => .ite (.pure _) (.pure _))
  exact (agrees_typedName limit).bind fun _ => (Agrees.lift location).bind fun _ =>
    (Agrees.consume _).bind fun _ => .pure _

theorem agrees_struct (limit : Nat) :
    Agrees source (Routine.struct source limit) (Parser.struct limit) := by
  have field : Agrees source (Routine.field source limit) (Parser.field limit) :=
    (agrees_typedName limit).bind fun _ => (Agrees.consume _).bind fun _ => .pure _
  exact (Agrees.consume _).bind fun _ => Agrees.ident.bind fun _ =>
    (Agrees.consume _).bind fun _ => (field.many _).bind fun _ =>
    (Agrees.consume _).bind fun _ => .pure _

theorem agrees_parameter (limit : Nat) :
    Agrees source (Routine.parameter source limit) (Parser.parameter limit) :=
  (agrees_typedName limit).bind fun _ => (Agrees.take _).bind fun _ =>
    .ite ((agrees_exprWithin limit limit).bind fun _ => .pure _) (.pure _)

theorem steady_modifiers : Parser.Steady Parser.modifiers := by
  refine .iterate (fun modifiers => Parser.Steady.peek.bind fun token => ?_) _
  cases Parser.modifier? token.kind with
  | none => exact .pure _
  | some modifier => exact .ite (.throw _) (Parser.Steady.advance.bind fun _ => .pure _)

theorem agrees_returnType? :
    Agrees source (Routine.returnType? source) Parser.returnType? := by
  refine (Agrees.take _).bind fun _ => .ite ((Agrees.take _).bind fun _ => .ite ?_ ?_) (.pure _)
  · exact (Agrees.ident.closedList _).bind fun _ => .pure _
  · exact Agrees.ident.bind fun _ => .pure _

theorem agrees_function (limit : Nat) :
    Agrees source (Routine.function source limit) (Parser.function limit) := by
  refine (Agrees.consume _).bind fun _ => Agrees.ident.bind fun _ => ?_
  refine (Agrees.consume _).bind fun _ => ((agrees_parameter limit).closedList _).bind fun _ => ?_
  refine (Agrees.lift steady_modifiers).bind fun _ => agrees_returnType?.bind fun _ => ?_
  exact (agrees_blockWithin limit limit).bind fun _ => .pure _

theorem agrees_member (limit : Nat) :
    Agrees source (Routine.member source limit) (Parser.member limit) := by
  refine Agrees.peek_bind fun token _ => ?_
  have other := (@agrees_stateVar source limit).bind fun value =>
    Agrees.pure (Parser.Member.stateVar value)
  cases token.kind with
  | keyword word =>
      cases word
      case def_ => exact (agrees_function limit).bind fun _ => .pure _
      case struct => exact (agrees_struct limit).bind fun _ => .pure _
      all_goals exact other
  | _ => exact other

theorem agrees_program (limit : Nat) :
    Agrees source (Routine.program source limit) (Parser.program limit) := by
  have contract : Agrees source (Routine.contract source limit) (Parser.contract limit) :=
    (Agrees.consume _).bind fun _ => Agrees.ident.bind fun _ => (Agrees.consume _).bind fun _ =>
      ((agrees_member limit).many _).bind fun _ => (Agrees.consume _).bind fun _ => .pure _
  exact (contract.many _).bind fun _ => (Agrees.consume _).bind fun _ => .ite (.throw _) (.pure _)

end Covenant.Checked
