import Covenant.Program.Parser
import Covenant.Proofs.Checked.Basic

/-! Parsing with checks. The routines take the texts of tokens from the source, check the kinds of
tokens again where a text is taken, and count the levels that are open without ever closing more of
them than were opened. -/

namespace Covenant.Checked

/-- A routine that may also panic, which is different from failing. -/
def Routine (α : Type) :=
  Parser.State → Checked (EStateM.Result CompileError Parser.State α)

namespace Routine

instance : Monad Routine where
  pure value := fun state => .ok (.ok value state)
  bind first next := fun state => do
    match ← first state with
    | .ok value after => next value after
    | .error error after => return .error error after

instance : MonadLift (EStateM CompileError Parser.State) Routine where
  monadLift routine := fun state => .ok (routine state)

instance : MonadLift (Except Panic) Routine where
  monadLift step := fun state => do return .ok (← step) state

/-! Nesting and repetition. -/

def ascend (state : Parser.State) : Checked Parser.State := do
  return { state with depth := ← sub state.depth 1 }

/-- Runs a routine one level deeper. Only closing the level needs a check: it is opened below a limit
that has 64 bits itself. -/
def nested {α : Type} (limit : Nat) (routine : Routine α) : Routine α := fun state =>
  match Parser.descend limit state with
  | .error error after => return .error error after
  | .ok () state => do
      match ← routine state with
      | .ok value after => return .ok value (← ascend after)
      | .error error after => return .error error (← ascend after)

/-- Closes all levels that a successful routine has left open. -/
def levelled {α : Type} (routine : Routine α) : Routine α := fun state => do
  match ← routine state with
  | .ok value after => return .ok value { after with depth := state.depth }
  | .error error after => return .error error after

def unrolled {α : Type} (step : α → Routine (ForInStep α)) (rounds : α → Routine α) (value : α) :
    Routine α := do
  match ← step value with
  | .done value => return value
  | .yield value => rounds value

def repeatWithin {α : Type} (step : α → Routine (ForInStep α)) : List Token → α → Routine α
  | [], value => unrolled step (fun _ => Parser.endless) value
  | _ :: bound, value => unrolled step (repeatWithin step bound) value

def iterate {α : Type} (step : α → Routine (ForInStep α)) (value : α) : Routine α := fun state =>
  repeatWithin step state.rest value state

def manyRound {α : Type} (closing : Token.Kind) (item : Routine α) (items : List α) :
    Routine (ForInStep (List α)) := do
  if ← Parser.atEnd closing then
    return .done items
  else
    return .yield ((← item) :: items)

def many {α : Type} (closing : Token.Kind) (item : Routine α) : Routine (List α) := do
  let items ← iterate (manyRound closing item) []
  return items.reverse

def commaRound {α : Type} (closing : Token.Kind) (item : Routine α) (list : List α × Bool) :
    Routine (ForInStep (List α × Bool)) := do
  if ← Parser.atEnd closing then
    return .done list
  else
    let value ← item
    if ← Parser.take (.symbol .comma) then
      return .yield (value :: list.1, true)
    else
      return .done (value :: list.1, list.2)

def commaList {α : Type} (closing : Token.Kind) (item : Routine α) : Routine (List α × Bool) := do
  let (items, comma) ← iterate (commaRound closing item) ([], false)
  return (items.reverse, comma)

def closedList {α : Type} (closing : Symbol) (item : Routine α) : Routine (List α × Bool) := do
  let list ← commaList (.symbol closing) item
  let _ ← Parser.consume (.symbol closing)
  return list

/-! Names and types. -/

def ident (source : String) : Routine Ident := do
  let token ← Parser.consume .identifier
  return ⟨← textOf source .identifier token, token.pos⟩

def isWord (source word : String) : Routine Bool := do
  let token ← Parser.peek
  if token.kind = .identifier then
    return (← cut source token.span) == word
  else
    return false

def takeWord (source word : String) : Routine Bool := do
  if ← isWord source word then
    let _ ← Parser.advance
    return true
  else
    return false

def mappingOf (source : String) (value : Routine TypeName) : Routine TypeName := do
  let _ ← Parser.advance
  let _ ← Parser.consume (.symbol .lparen)
  let key ← ident source
  let _ ← Parser.consume (.symbol .arrow)
  let type ← value
  let _ ← Parser.consume (.symbol .rparen)
  return .mapping key.name type

def arrayType (source : String) : Routine TypeName := do
  let name ← ident source
  Parser.iterate Parser.bracketsRound (.named name.name)

def typeWithin (source : String) (limit : Nat) : (levels : Nat) → Routine TypeName
  | 0 => do if ← isWord source "mapping" then Parser.tooDeep limit else arrayType source
  | levels + 1 => do
      if ← isWord source "mapping" then
        nested limit (mappingOf source (typeWithin source limit levels))
      else arrayType source

/-! Expressions. -/

def operatorRound (limit : Nat) (level : BinaryOp.Level) (operand : Routine Expr) (left : Expr) :
    Routine (ForInStep Expr) := do
  match Parser.binaryOp? level (← Parser.peek).kind with
  | none => return .done left
  | some op => do
      Parser.descend limit
      let _ ← Parser.advance
      let right ← operand
      return .yield (.binary left.pos op left right)

def leftAssoc (limit : Nat) (level : BinaryOp.Level) (operand : Routine Expr) : Routine Expr :=
  levelled do
    let first ← operand
    iterate (operatorRound limit level operand) first

def binary (limit : Nat) (operand : Routine Expr) : List BinaryOp.Level → Routine Expr
  | [] => operand
  | level :: levels => leftAssoc limit level (binary limit operand levels)

def unaryOver (primary operand : Routine Expr) : Routine Expr := do
  let token ← Parser.peek
  match Parser.unaryOp? token.kind with
  | none => primary
  | some op => do
      let _ ← Parser.advance
      return .unary token.pos op (← operand)

def unaryWithin (limit : Nat) (primary : Routine Expr) : (levels : Nat) → Routine Expr
  | 0 => unaryOver primary (Parser.tooDeep limit)
  | levels + 1 => unaryOver primary (nested limit (unaryWithin limit primary levels))

def access? (source : String) (expr : Routine Expr) (object : Expr) : Routine (Option Expr) := do
  match (← Parser.peek).kind with
  | .symbol .dot => do
      let _ ← Parser.advance
      return some (.member object.pos object (← ident source).name)
  | .symbol .lbracket => do
      let _ ← Parser.advance
      let index ← expr
      let _ ← Parser.consume (.symbol .rbracket)
      return some (.index object.pos object index)
  | .symbol .lparen => do
      let _ ← Parser.advance
      let (arguments, _) ← closedList .rparen expr
      return some (.call object.pos object arguments)
  | _ => return none

/-- Puts an access where what it accesses stands. -/
def placeAccess : Expr → Checked Expr
  | .member _ object name => return .member object.pos object name
  | .index _ object index => return .index object.pos object index
  | .call _ callee arguments => return .call callee.pos callee arguments
  | _ => throw .notAnAccess

def accessRound (source : String) (limit : Nat) (expr : Routine Expr) (object : Expr) :
    Routine (ForInStep Expr) := do
  match ← access? source expr object with
  | none => return .done object
  | some access => do
      Parser.descend limit
      return .yield (← placeAccess access)

def accesses (source : String) (limit : Nat) (expr : Routine Expr) (root : Expr) : Routine Expr :=
  levelled (iterate (accessRound source limit expr) root)

def parenthesized (expr : Routine Expr) (pos : Position) : Routine Expr := do
  match ← closedList .rparen expr with
  | ([inner], false) => return inner
  | (elements, _) => return .tuple pos elements

def property (source : String) (expr : Routine Expr) : Routine (String × Expr) := do
  let key ← ident source
  let _ ← Parser.consume (.symbol .colon)
  return (key.name, ← expr)

def primary (source : String) (limit : Nat) (expr : Routine Expr) : Routine Expr := do
  let token ← Parser.advance
  match token.kind with
  | .number => return .literal token.pos (.number (← textOf source .number token))
  | .string escaped => return .literal token.pos (.string (← stringOf source escaped token))
  | .keyword .true_ => return .literal token.pos (.bool true)
  | .keyword .false_ => return .literal token.pos (.bool false)
  | .symbol .lbracket => do
      let (elements, _) ← closedList .rbracket expr
      return .array token.pos elements
  | .symbol .lbrace => do
      let (properties, _) ← closedList .rbrace (property source expr)
      return .object token.pos properties
  | .identifier => do
      let name ← textOf source .identifier token
      accesses source limit expr (.ident token.pos name)
  | .symbol .lparen => parenthesized expr token.pos
  | kind => Parser.fail token.pos (.notAnExpression kind)

def ternary (source : String) (limit : Nat) (expr : Routine Expr) : Routine Expr := do
  let condition ← binary limit (unaryWithin limit (primary source limit expr) limit)
    BinaryOp.Level.all
  if ← Parser.take (.symbol .question) then
    let yes ← expr
    let _ ← Parser.consume (.symbol .colon)
    let no ← expr
    return .ternary condition.pos condition yes no
  else
    return condition

def exprWithin (source : String) (limit : Nat) : (levels : Nat) → Routine Expr
  | 0 => Parser.tooDeep limit
  | levels + 1 => nested limit (ternary source limit (exprWithin source limit levels))

def expr (source : String) (limit : Nat) : Routine Expr :=
  exprWithin source limit limit

/-! Statements. -/

def blockOf (statements : Routine (List Stmt)) : Routine (List Stmt) := do
  let _ ← Parser.consume (.symbol .lbrace)
  let body ← statements
  let _ ← Parser.consume (.symbol .rbrace)
  return body

def branchOver (expr : Routine Expr) (block : Routine (List Stmt)) (elseBranch : Routine Stmt) :
    Routine Stmt := do
  let token ← Parser.consume (.keyword .if_)
  let condition ← expr
  let yes ← block
  if ← Parser.take (.keyword .else_) then
    let next ← Parser.peek
    match next.kind with
    | .symbol .lbrace => return .if_ token.pos condition yes (some (← block))
    | .keyword .if_ => return .if_ token.pos condition yes (some [← elseBranch])
    | kind => Parser.fail next.pos (.badElse kind)
  else
    return .if_ token.pos condition yes none

def branchWithin (limit : Nat) (expr : Routine Expr) (block : Routine (List Stmt)) :
    (levels : Nat) → Routine Stmt
  | 0 => branchOver expr block (Parser.tooDeep limit)
  | levels + 1 => branchOver expr block (nested limit (branchWithin limit expr block levels))

def countingLoop (source : String) (expr : Routine Expr) (block : Routine (List Stmt)) :
    Routine Stmt := do
  let token ← Parser.consume (.keyword .for_)
  let name ← Parser.peek
  if name.kind ≠ .identifier then
    Parser.failFor .counter
  else
    let _ ← Parser.advance
    let counter : Ident := ⟨← textOf source .identifier name, name.pos⟩
    if !(← Parser.take (.symbol .assign)) then
      Parser.failFor .assign
    else
      let start ← expr
      if !(← takeWord source "to") then
        Parser.failFor .bound
      else
        let bound ← expr
        let step ← if ← takeWord source "step" then expr
          else pure (.literal counter.pos (.number "1"))
        let body ← block
        return .for_ token.pos counter start bound (Stmt.countBy counter step) body

def exprStmt (expr : Routine Expr) (pos : Position) : Routine Stmt := do
  let target ← expr
  if ← Parser.take (.symbol .assign) then
    return .assign pos ⟨target, ← expr⟩
  else
    return .expr pos target

def simpleStmt (expr : Routine Expr) (block : Routine (List Stmt)) : Routine Stmt := do
  let token ← Parser.peek
  match token.kind with
  | .keyword .while_ => do
      let _ ← Parser.advance
      let condition ← expr
      return .while_ token.pos condition (← block)
  | .keyword .return_ => do
      let _ ← Parser.advance
      if ← Parser.atStmtEnd then
        return .return_ token.pos none
      else
        return .return_ token.pos (some (← expr))
  | .keyword .break_ => do
      let _ ← Parser.advance
      return .break_ token.pos
  | .keyword .continue_ => do
      let _ ← Parser.advance
      return .continue_ token.pos
  | _ => exprStmt expr token.pos

def stmt (source : String) (limit : Nat) (block : Routine (List Stmt)) : Routine Stmt := do
  match (← Parser.peek).kind with
  | .keyword .if_ => branchWithin limit (expr source limit) block limit
  | .keyword .for_ => countingLoop source (expr source limit) block
  | _ => do
      let statement ← simpleStmt (expr source limit) block
      let _ ← Parser.take (.symbol .semicolon)
      return statement

def blockWithin (source : String) (limit : Nat) : (levels : Nat) → Routine (List Stmt)
  | 0 => blockOf (Parser.tooDeep limit)
  | levels + 1 =>
      blockOf (nested limit
        (many (.symbol .rbrace) (stmt source limit (blockWithin source limit levels))))

/-! Declarations. -/

def typedName (source : String) (limit : Nat) : Routine (Ident × TypeName) := do
  let name ← ident source
  let _ ← Parser.consume (.symbol .colon)
  return (name, ← typeWithin source limit limit)

def stateVar (source : String) (limit : Nat) : Routine StateVar := do
  let (name, type) ← typedName source limit
  let location ← Parser.storageLocation?
  let _ ← Parser.consume (.symbol .semicolon)
  return ⟨name, type, location⟩

def field (source : String) (limit : Nat) : Routine Field := do
  let (name, type) ← typedName source limit
  let _ ← Parser.consume (.symbol .semicolon)
  return ⟨name, type⟩

def struct (source : String) (limit : Nat) : Routine Struct := do
  let _ ← Parser.consume (.keyword .struct)
  let name ← ident source
  let _ ← Parser.consume (.symbol .lbrace)
  let fields ← many (.symbol .rbrace) (field source limit)
  let _ ← Parser.consume (.symbol .rbrace)
  return ⟨name, fields⟩

def parameter (source : String) (limit : Nat) : Routine Parameter := do
  let (name, type) ← typedName source limit
  if ← Parser.take (.symbol .assign) then
    return ⟨name, type, some (← expr source limit)⟩
  else
    return ⟨name, type, none⟩

def returnType? (source : String) : Routine (Option ReturnType) := do
  if ← Parser.take (.symbol .arrow) then
    if ← Parser.take (.symbol .lparen) then
      let (names, _) ← closedList .rparen (ident source)
      return some (.tuple (names.map (·.name)))
    else
      return some (.single (← ident source).name)
  else
    return none

def function (source : String) (limit : Nat) : Routine Function := do
  let _ ← Parser.consume (.keyword .def_)
  let name ← ident source
  let _ ← Parser.consume (.symbol .lparen)
  let (parameters, _) ← closedList .rparen (parameter source limit)
  let modifiers ← Parser.modifiers
  let returns ← returnType? source
  let body ← blockWithin source limit limit
  return ⟨name, parameters, returns, modifiers, body⟩

def member (source : String) (limit : Nat) : Routine Parser.Member := do
  match (← Parser.peek).kind with
  | .keyword .def_ => return .function (← function source limit)
  | .keyword .struct => return .struct (← struct source limit)
  | _ => return .stateVar (← stateVar source limit)

def contract (source : String) (limit : Nat) : Routine Contract := do
  let _ ← Parser.consume (.keyword .contract)
  let name ← ident source
  let _ ← Parser.consume (.symbol .lbrace)
  let members ← many (.symbol .rbrace) (member source limit)
  let _ ← Parser.consume (.symbol .rbrace)
  return ⟨name, members.filterMap Parser.Member.stateVar?,
    members.filterMap Parser.Member.function?, members.filterMap Parser.Member.struct?⟩

def program (source : String) (limit : Nat) : Routine Program := do
  let contracts ← many .eof (contract source limit)
  let token ← Parser.consume .eof
  if contracts.isEmpty then
    Parser.fail token.pos .emptyProgram
  else
    return ⟨contracts⟩

end Routine

end Covenant.Checked
