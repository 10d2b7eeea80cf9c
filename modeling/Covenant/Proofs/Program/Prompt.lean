import Covenant.Proofs.Parser.Prompt
import Covenant.Proofs.Program.Rereading
import Covenant.Proofs.Token.Places
import Mathlib

/-! The routines of the parser are prompt, so that a parse error depends on the tokens up to the one
that it is reported at, and on no others. -/

namespace Covenant.Parser

/-! Types. -/

theorem prompt_mappingOf {value : Parser TypeName} (prompt : Prompt value) :
    Prompt (mappingOf value) := by
  refine Prompt.advance.bind fun _ => (Prompt.consume _).bind fun _ => Prompt.ident.bind fun _ => ?_
  refine (Prompt.consume _).bind fun _ => prompt.bind fun _ => ?_
  exact (Prompt.consume _).bind fun _ => .pure _

theorem prompt_arrayType : Prompt arrayType := by
  refine Prompt.ident.bind fun name => .iterate progressive_bracketsRound (fun type => ?_) _
  exact (Prompt.take _).bind fun _ => .ite ((Prompt.consume _).bind fun _ => .pure _) (.pure _)

theorem prompt_typeWithin (limit levels : Nat) : Prompt (typeWithin limit levels) := by
  induction levels using Nat.strongRecOn with
  | ind levels induction =>
      rw [typeWithin_eq]
      refine (Prompt.isWord _).bind fun _ => .ite ?_ prompt_arrayType
      exact .below (fun level smaller => prompt_mappingOf (induction level smaller)) limit

/-! Expressions. -/

theorem prompt_leftAssoc {operand : Parser Expr} (prompt : Prompt operand)
    (reads : Reads operand fun _ _ => True) (limit : Nat) (level : BinaryOp.Level) :
    Prompt (leftAssoc limit level operand) := by
  refine .levelled (prompt.bind fun first => ?_)
  refine .iterate (progressive_operatorRound reads) (fun left => .peek_bind fun token => ?_) first
  split
  · exact .pure _
  · refine (PromptAt.descend limit).bind fun _ => ?_
    exact Prompt.advance.bind fun _ => prompt.bind fun _ => .pure _

theorem prompt_binary {operand : Parser Expr} (prompt : Prompt operand)
    (reads : Reads operand (Expr.Derives .unary)) (limit : Nat) (levels : List BinaryOp.Level) :
    Prompt (binary limit operand levels) := by
  induction levels with
  | nil => exact prompt
  | cons level levels induction =>
      have readsTighter : Reads (binary limit operand levels) fun _ _ => True :=
        (reads_binary reads levels).mono fun _ _ _ => trivial
      exact prompt_leftAssoc induction readsTighter limit level

theorem prompt_unaryOver {primary operand : Parser Expr} (prompt : Prompt primary)
    (promptOperand : Prompt operand) : Prompt (unaryOver primary operand) := by
  refine .peek_bind fun token => ?_
  split
  · exact prompt token
  · exact Prompt.advance.bind (fun _ => promptOperand.bind fun _ => .pure _) token

theorem prompt_unaryWithin {primary : Parser Expr} (prompt : Prompt primary) (limit levels : Nat) :
    Prompt (unaryWithin limit primary levels) := by
  induction levels using Nat.strongRecOn with
  | ind levels induction =>
      rw [unaryWithin_eq]
      exact prompt_unaryOver prompt (.below induction limit)

section

variable {expr : Parser Expr} (prompt : Prompt expr) (reads : Reads expr (Expr.Derives .expr))

include prompt reads

theorem prompt_exprs (closing : Symbol) : Prompt (closedList closing expr) :=
  prompt.closedList (reads.mono fun _ _ _ => trivial) closing

theorem prompt_access? (object : Expr) : Prompt (access? expr object) := by
  refine .peek_bind fun token => ?_
  split
  · exact Prompt.advance.bind (fun _ => Prompt.ident.bind fun _ => .pure _) token
  · refine Prompt.advance.bind (fun _ => prompt.bind fun index => ?_) token
    exact (Prompt.consume _).bind fun _ => .pure _
  · exact Prompt.advance.bind (fun _ => (prompt_exprs prompt reads _).bind fun _ => .pure _) token
  · exact .pure _

theorem prompt_accesses (limit : Nat) (root : Expr) : Prompt (accesses limit expr root) := by
  refine .levelled (.iterate (progressive_accessRound reads) (fun object => ?_) root)
  refine (prompt_access? prompt reads object).bind fun result => ?_
  cases result with
  | none => exact .pure _
  | some value => exact (Prompt.descend limit).bind fun _ => .pure _

theorem prompt_parenthesized (pos : Position) : Prompt (parenthesized expr pos) := by
  refine (prompt_exprs prompt reads _).bind fun list => ?_
  split
  · exact .pure _
  · exact .pure _

/-- The token that cannot start an expression is passed before the error is reported there. -/
theorem prompt_primary (limit : Nat) : Prompt (primary limit expr) := by
  refine .advance_bind fun token => ?_
  split
  · exact .prompt (.pure _)
  · exact .prompt (.pure _)
  · exact .prompt (.pure _)
  · exact .prompt (.pure _)
  · exact .prompt ((prompt_exprs prompt reads _).bind fun _ => .pure _)
  · have properties : Prompt (property expr) :=
      Prompt.ident.bind fun _ => (Prompt.consume _).bind fun _ => prompt.bind fun _ => .pure _
    have readsProperty : Reads (property expr) fun _ _ => True :=
      (reads_property reads).mono fun _ _ _ => trivial
    exact .prompt ((properties.closedList readsProperty _).bind fun _ => .pure _)
  · exact .prompt (prompt_accesses prompt reads limit _)
  · exact .prompt (prompt_parenthesized prompt reads _)
  · exact .fail _

theorem prompt_ternary (limit : Nat) : Prompt (ternary limit expr) := by
  have operand := prompt_unaryWithin (prompt_primary prompt reads limit) limit limit
  have readsOperand : Reads (unaryWithin limit (primary limit expr) limit) (Expr.Derives .unary) :=
    reads_unaryWithin (reads_primary reads) limit
  refine (prompt_binary operand readsOperand limit _).bind fun condition => ?_
  refine (Prompt.take _).bind fun _ => ?_
  refine .ite (prompt.bind fun yes => (Prompt.consume _).bind fun _ => ?_) (.pure _)
  exact prompt.bind fun no => .pure _

end

theorem prompt_exprWithin (limit levels : Nat) : Prompt (exprWithin limit levels) := by
  induction levels using Nat.strongRecOn with
  | ind levels induction =>
      rw [exprWithin_eq]
      refine .below (fun level smaller => ?_) limit
      exact prompt_ternary (induction level smaller) (reads_exprWithin limit level) limit

/-! Statements. -/

theorem prompt_failFor {α : Type} (part : ForPart) : Prompt (failFor part : Parser α) :=
  .peek_bind fun _ => .fail _

theorem prompt_atStmtEnd : Prompt atStmtEnd :=
  .peek_bind fun _ => .pure _

theorem prompt_blockOf {statements : Parser (List Stmt)} (prompt : Prompt statements) :
    Prompt (blockOf statements) :=
  (Prompt.consume _).bind fun _ => prompt.bind fun _ => (Prompt.consume _).bind fun _ => .pure _

section

variable {expr : Parser Expr} {block : Parser (List Stmt)} (promptExpr : Prompt expr)
  (promptBlock : Prompt block)

include promptExpr promptBlock

theorem prompt_branchOver {branch : Parser Stmt} (prompt : Prompt branch) :
    Prompt (branchOver expr block branch) := by
  refine (Prompt.consume _).bind fun token => promptExpr.bind fun condition => ?_
  refine promptBlock.bind fun yes => (Prompt.take _).bind fun _ => .ite ?_ (.pure _)
  refine .peek_bind fun next => ?_
  split
  · exact promptBlock.bind (fun _ => .pure _) next
  · exact prompt.bind (fun _ => .pure _) next
  · exact .fail _

theorem prompt_branchWithin (limit levels : Nat) :
    Prompt (branchWithin limit expr block levels) := by
  induction levels using Nat.strongRecOn with
  | ind levels induction =>
      rw [branchWithin_eq]
      exact prompt_branchOver promptExpr promptBlock (.below induction limit)

theorem prompt_countingLoop : Prompt (countingLoop expr block) := by
  refine (Prompt.consume _).bind fun token => .peek_bind fun name => ?_
  refine .ite (prompt_failFor _ name) ((Prompt.advance name).bind fun _ => ?_)
  refine (Prompt.take _).bind fun _ => .ite (prompt_failFor _) (promptExpr.bind fun start => ?_)
  refine (Prompt.takeWord _).bind fun _ => .ite (prompt_failFor _) (promptExpr.bind fun bound => ?_)
  refine (Prompt.takeWord _).bind fun _ => ?_
  refine .ite (promptExpr.bind fun step => ?_) ((Prompt.pure _).bind fun step => ?_)
  · exact promptBlock.bind fun _ => .pure _
  · exact promptBlock.bind fun _ => .pure _

theorem prompt_simpleStmt : Prompt (simpleStmt expr block) := by
  refine .peek_bind fun token => ?_
  split
  · refine (Prompt.advance token).bind fun _ => promptExpr.bind fun condition => ?_
    exact promptBlock.bind fun _ => .pure _
  · refine (Prompt.advance token).bind fun _ => prompt_atStmtEnd.bind fun _ => .ite (.pure _) ?_
    exact promptExpr.bind fun _ => .pure _
  · exact (Prompt.advance token).bind fun _ => .pure _
  · exact (Prompt.advance token).bind fun _ => .pure _
  · refine promptExpr.bind (fun target => (Prompt.take _).bind fun _ => .ite ?_ (.pure _)) token
    exact promptExpr.bind fun _ => .pure _

end

theorem prompt_stmt {block : Parser (List Stmt)} (prompt : Prompt block) (limit : Nat) :
    Prompt (stmt limit block) := by
  have promptExpr := prompt_exprWithin limit limit
  refine .peek_bind fun token => ?_
  split
  · exact prompt_branchWithin promptExpr prompt limit limit token
  · exact prompt_countingLoop promptExpr prompt token
  · refine (prompt_simpleStmt promptExpr prompt).bind (fun _ => ?_) token
    exact (Prompt.take _).bind fun _ => .pure _

theorem prompt_blockWithin (limit levels : Nat) : Prompt (blockWithin limit levels) := by
  induction levels using Nat.strongRecOn with
  | ind levels induction =>
      rw [blockWithin_eq]
      refine prompt_blockOf (.below (fun level smaller => ?_) limit)
      have passes := (advancing_stmt (@coupled_blockWithin (.same limit) level)).passes
      exact (prompt_stmt (induction level smaller) limit).many passes _

/-! Declarations. -/

theorem prompt_typedName (limit : Nat) : Prompt (typedName limit) :=
  Prompt.ident.bind fun _ => (Prompt.consume _).bind fun _ =>
    (prompt_typeWithin limit limit).bind fun _ => .pure _

theorem prompt_stateVar (limit : Nat) : Prompt (stateVar limit) := by
  have location : Prompt storageLocation? :=
    (Prompt.take _).bind fun _ => .ite (.pure _) <|
      (Prompt.take _).bind fun _ => .ite (.pure _) (.pure _)
  refine (prompt_typedName limit).bind fun _ => location.bind fun _ => ?_
  exact (Prompt.consume _).bind fun _ => .pure _

theorem prompt_struct (limit : Nat) : Prompt (struct limit) := by
  have field : Prompt (field limit) :=
    (prompt_typedName limit).bind fun _ => (Prompt.consume _).bind fun _ => .pure _
  have passes := (@advancing_field (.same limit)).passes
  refine (Prompt.consume _).bind fun _ => Prompt.ident.bind fun _ => ?_
  refine (Prompt.consume _).bind fun _ => ?_
  exact (field.many passes _).bind fun _ => (Prompt.consume _).bind fun _ => .pure _

theorem prompt_parameter (limit : Nat) : Prompt (parameter limit) := by
  refine (prompt_typedName limit).bind fun _ => (Prompt.take _).bind fun _ => .ite ?_ (.pure _)
  exact (prompt_exprWithin limit limit).bind fun _ => .pure _

theorem prompt_modifiers : Prompt modifiers := by
  refine .iterate progressive_modifierRound (fun found => .peek_bind fun token => ?_) _
  split
  · exact .pure _
  · exact .ite (.fail _) ((Prompt.advance token).bind fun _ => .pure _)

theorem prompt_returnType? : Prompt returnType? := by
  have readsIdent : Reads ident fun _ _ => True := reads_ident.mono fun _ _ _ => trivial
  refine (Prompt.take _).bind fun _ => .ite ((Prompt.take _).bind fun _ => .ite ?_ ?_) (.pure _)
  · exact (Prompt.ident.closedList readsIdent _).bind fun _ => .pure _
  · exact Prompt.ident.bind fun _ => .pure _

theorem prompt_function (limit : Nat) : Prompt (function limit) := by
  have parameters := (prompt_parameter limit).closedList
    (@coupled_parameter (.same limit)).forward.reads .rparen
  refine (Prompt.consume _).bind fun _ => Prompt.ident.bind fun _ => ?_
  refine (Prompt.consume _).bind fun _ => ?_
  refine parameters.bind fun _ => prompt_modifiers.bind fun _ => prompt_returnType?.bind fun _ => ?_
  exact (prompt_blockWithin limit limit).bind fun _ => .pure _

theorem prompt_member (limit : Nat) : Prompt (member limit) := by
  refine .peek_bind fun token => ?_
  split
  · exact (prompt_function limit).bind (fun _ => .pure _) token
  · exact (prompt_struct limit).bind (fun _ => .pure _) token
  · exact (prompt_stateVar limit).bind (fun _ => .pure _) token

theorem prompt_contract (limit : Nat) : Prompt (contract limit) := by
  have passes := (@advancing_member (.same limit)).passes
  refine (Prompt.consume _).bind fun _ => Prompt.ident.bind fun _ => ?_
  refine (Prompt.consume _).bind fun _ => ?_
  refine ((prompt_member limit).many passes _).bind fun _ => ?_
  exact (Prompt.consume _).bind fun _ => .pure _

theorem prompt_program (limit : Nat) : Prompt (program limit) := by
  refine ((prompt_contract limit).many (passes_contract limit) _).bind fun contracts => ?_
  exact .consume_eof_bind fun token => .ite (.fail _) (.pure _)

/-! Whole inputs. -/

theorem decided_program {tokens : List Token} (ended : Ended tokens) (limit : Nat) :
    Decided (program limit) 0 tokens := by
  obtain ⟨token, rest, rfl⟩ := ended.exists_cons
  exact prompt_program limit token rest 0 ended

/-- Only the kinds, the texts and the places of tokens matter. -/
theorem run_program_eq_of_alike {limit : Nat} {tokens others : List Token} (ended : Ended tokens)
    (alike : List.Forall₂ (Token.Alike id) tokens others) :
    run (program limit) others = run (program limit) tokens := by
  have same := (@coupled_program ⟨id, [], [], limit, 0⟩).run_eq_relocate ended alike
  change run (program limit) others =
    ((run (program limit) tokens).map (Program.relocate id)).mapError (.relocate id) at same
  rw [same]
  cases run (program limit) tokens with
  | ok program => exact congrArg Except.ok program.relocate_id
  | error error => exact congrArg Except.error error.relocate_id

/-- The error of a run, with the token that comes next and those before it. -/
theorem exists_front_of_error {limit : Nat} {tokens : List Token} {error : CompileError}
    (ended : Ended tokens) (failed : run (program limit) tokens = .error error) :
    ∃ passed token rest, tokens = passed ++ token :: rest ∧ ReportedAt token error ∧
      ∀ others, run (program limit) (passed ++ token :: others) = .error error := by
  cases decided_program ended limit with
  | ok passed token rest value after split going succeeds =>
      rw [run, split, succeeds] at failed
      cases failed
  | error passed token rest other split going reported fails =>
      have runs (others : List Token) :
          run (program limit) (passed ++ token :: others) = .error other := by
        obtain ⟨after, ran⟩ := fails others
        rw [run, ran]
      rw [split, runs rest] at failed
      obtain rfl := Except.error.inj failed
      exact ⟨passed, token, rest, split, reported, runs⟩

end Covenant.Parser

namespace Covenant

namespace Token

/-- What the parser sees of a token. -/
def seen (token : Token) : Kind × String × Position :=
  (token.kind, token.text, token.pos)

theorem alike_of_seen {token other : Token} (same : token.seen = other.seen) :
    Alike id token other := by
  obtain ⟨kind, others⟩ := Prod.mk.inj same
  obtain ⟨text, pos⟩ := Prod.mk.inj others
  exact ⟨kind.symm, fun _ => text.symm, pos.symm⟩

/-- Tokens whose front is seen as another one. -/
theorem forall₂_alike_of_front {front others : List Token} {count : Nat}
    (same : (others.take count).map seen = front.map seen) :
    List.Forall₂ (Alike id) others (front ++ others.drop count) := by
  have seenAlike : List.Forall₂ (fun token other => token.seen = other.seen) (others.take count)
      front := by
    rwa [← List.forall₂_eq_eq_eq, List.forall₂_map_left_iff, List.forall₂_map_right_iff] at same
  have back : List.Forall₂ (Alike id) (others.drop count) (others.drop count) :=
    List.forall₂_same.2 fun _ _ => alike_of_seen rfl
  have whole : List.Forall₂ (Alike id) (others.take count ++ others.drop count)
      (front ++ others.drop count) :=
    List.rel_append (seenAlike.imp fun _ _ => alike_of_seen) back
  rwa [List.take_append_drop] at whole

end Token

/-- A parse error is reported at exactly one token, and every source with the same tokens up to that
one fails with the same error. -/
theorem Program.parse_error_of_same_front {limits : Limits} {source : String} {tokens : List Token}
    {error : Located ParseError} (short : source.utf8ByteSize ≤ limits.sourceBytes)
    (lexed : Token.lex source = .ok tokens)
    (failed : parse limits source = .error (.parse error)) :
    ∃ k, (∀ i, tokens[i]?.map Token.pos = some error.pos ↔ i = k) ∧
      ∀ other others, other.utf8ByteSize ≤ limits.sourceBytes → Token.lex other = .ok others →
        (others.take (k + 1)).map Token.seen = (tokens.take (k + 1)).map Token.seen →
          parse limits other = .error (.parse error) := by
  rw [parse, Parser.runSource_eq short lexed] at failed
  obtain ⟨passed, token, rest, rfl, ⟨message⟩, fails⟩ :=
    Parser.exists_front_of_error (Token.ended_of_lex lexed) failed
  refine ⟨passed.length, fun i => ?_, fun other others otherShort otherLexed same => ?_⟩
  · have found : ((passed ++ token :: rest).map Token.pos)[passed.length]? = some token.pos := by
      simp
    rw [← List.getElem?_map, ← found, eq_comm,
      List.getElem?_inj (by simp) (Token.nodup_pos_of_lex lexed), eq_comm]
  · have front : (passed ++ token :: rest).take (passed.length + 1) = passed ++ [token] := by
      simp [List.take_append]
    rw [front] at same
    have alike := Token.forall₂_alike_of_front same
    rw [parse, Parser.runSource_eq otherShort otherLexed,
      ← Parser.run_program_eq_of_alike (Token.ended_of_lex otherLexed) alike, List.append_assoc]
    exact fails _

def colonlessTokens : List Token :=
  [⟨.keyword .contract, "contract", ⟨5, 8⟩, ⟨2, 1⟩⟩, ⟨.identifier, "A", ⟨14, 1⟩, ⟨2, 10⟩⟩,
    ⟨.symbol .lbrace, "\x7b", ⟨16, 1⟩, ⟨2, 12⟩⟩, ⟨.identifier, "x", ⟨18, 1⟩, ⟨2, 14⟩⟩,
    ⟨.identifier, "uint", ⟨20, 4⟩, ⟨2, 16⟩⟩, ⟨.symbol .semicolon, ";", ⟨24, 1⟩, ⟨2, 20⟩⟩,
    ⟨.symbol .rbrace, "\x7d", ⟨26, 1⟩, ⟨2, 22⟩⟩, .endOfInput ⟨27, ⟨2, 23⟩⟩]

def colonlessOtherTokens : List Token :=
  [⟨.keyword .contract, "contract", ⟨2, 8⟩, ⟨2, 1⟩⟩, ⟨.identifier, "A", ⟨11, 1⟩, ⟨2, 10⟩⟩,
    ⟨.symbol .lbrace, "\x7b", ⟨13, 1⟩, ⟨2, 12⟩⟩, ⟨.identifier, "x", ⟨15, 1⟩, ⟨2, 14⟩⟩,
    ⟨.identifier, "uint", ⟨17, 4⟩, ⟨2, 16⟩⟩, ⟨.symbol .question, "?", ⟨22, 1⟩, ⟨2, 21⟩⟩,
    ⟨.string false, "\"b\"", ⟨24, 3⟩, ⟨2, 23⟩⟩, .endOfInput ⟨27, ⟨2, 26⟩⟩]

/-- The missing colon is noticed at the fifth token, whatever comes after it. -/
theorem Program.colonless_same_front :
    Token.lex "# é\ncontract A \x7b x uint; \x7d" = .ok colonlessTokens ∧
      Token.lex "#\ncontract A \x7b x uint ? \"b\"" = .ok colonlessOtherTokens ∧
      parse ⟨27, 8⟩ "#\ncontract A \x7b x uint ? \"b\"" =
        .error (.parse ⟨⟨2, 16⟩, .unexpected .identifier (.symbol .colon)⟩) := by
  have lexed : Token.lex "# é\ncontract A \x7b x uint; \x7d" = .ok colonlessTokens := by rfl
  have otherLexed : Token.lex "#\ncontract A \x7b x uint ? \"b\"" = .ok colonlessOtherTokens := by
    rfl
  have failed : parse ⟨27, 8⟩ "# é\ncontract A \x7b x uint; \x7d" =
      .error (.parse ⟨⟨2, 16⟩, .unexpected .identifier (.symbol .colon)⟩) := by cbv
  obtain ⟨k, isAt, follows⟩ := parse_error_of_same_front (by decide) lexed failed
  obtain rfl := (isAt 4).1 rfl
  exact ⟨lexed, otherLexed, follows _ _ (by decide) otherLexed (by decide)⟩

end Covenant
