import Covenant.Parser.Basic

/-! Reading expressions. Each routine takes the routines for its parts as arguments; `exprWithin`
ties them together, once for each level that can still be opened. -/

namespace Covenant.Parser

def binaryOp? (level : BinaryOp.Level) : Token.Kind → Option BinaryOp
  | .symbol symbol => (BinaryOp.ofSymbol? symbol).filter fun op => op.level = level
  | _ => none

def unaryOp? : Token.Kind → Option UnaryOp
  | .symbol symbol => UnaryOp.ofSymbol? symbol
  | _ => none

/-- One more operator of the level with its right operand, if there is one. -/
def operatorRound (limit : Nat) (level : BinaryOp.Level) (operand : Parser Expr) (left : Expr) :
    Parser (ForInStep Expr) := do
  match binaryOp? level (← peek).kind with
  | none => return .done left
  | some op => do
      descend limit
      let _ ← advance
      let right ← operand
      return .yield (.binary left.pos op left right)

/-- The operators of one level, applied from left to right. Each makes the tree one level deeper. -/
def leftAssoc (limit : Nat) (level : BinaryOp.Level) (operand : Parser Expr) : Parser Expr :=
  levelled do
    let first ← operand
    iterate (operatorRound limit level operand) first

/-- The levels of a list, the loosest first, over `operand`. -/
def binary (limit : Nat) (operand : Parser Expr) : List BinaryOp.Level → Parser Expr
  | [] => operand
  | level :: levels => leftAssoc limit level (binary limit operand levels)

/-- An operator in front of `operand`, or else `primary`. -/
def unaryOver (primary operand : Parser Expr) : Parser Expr := do
  let token ← peek
  match unaryOp? token.kind with
  | none => primary
  | some op => do
      let _ ← advance
      return .unary token.pos op (← operand)

/-- Up to `levels` operators in front of `primary`. -/
def unaryWithin (limit : Nat) (primary : Parser Expr) : (levels : Nat) → Parser Expr
  | 0 => unaryOver primary (tooDeep limit)
  | levels + 1 => unaryOver primary (nested limit (unaryWithin limit primary levels))

/-- One access to `object`, if there is one. -/
def access? (expr : Parser Expr) (object : Expr) : Parser (Option Expr) := do
  match (← peek).kind with
  | .symbol .dot => do
      let _ ← advance
      return some (.member object.pos object (← ident).name)
  | .symbol .lbracket => do
      let _ ← advance
      let index ← expr
      let _ ← consume (.symbol .rbracket)
      return some (.index object.pos object index)
  | .symbol .lparen => do
      let _ ← advance
      let (arguments, _) ← closedList .rparen expr
      return some (.call object.pos object arguments)
  | _ => return none

/-- One more access, if there is one. -/
def accessRound (limit : Nat) (expr : Parser Expr) (object : Expr) : Parser (ForInStep Expr) := do
  match ← access? expr object with
  | none => return .done object
  | some object => do
      descend limit
      return .yield object

/-- All accesses to `root`, from left to right. Each makes the tree one level deeper. -/
def accesses (limit : Nat) (expr : Parser Expr) (root : Expr) : Parser Expr :=
  levelled (iterate (accessRound limit expr) root)

/-- What follows an opening parenthesis at `pos`. One expression without a comma is only grouped;
anything else is a tuple. -/
def parenthesized (expr : Parser Expr) (pos : Position) : Parser Expr := do
  match ← closedList .rparen expr with
  | ([inner], false) => return inner
  | (elements, _) => return .tuple pos elements

def property (expr : Parser Expr) : Parser (String × Expr) := do
  let key ← ident
  let _ ← consume (.symbol .colon)
  return (key.name, ← expr)

def primary (limit : Nat) (expr : Parser Expr) : Parser Expr := do
  let token ← advance
  match token.kind with
  | .number => return .literal token.pos (.number token.text)
  | .string _ => return .literal token.pos (.string token.stringValue)
  | .keyword .true_ => return .literal token.pos (.bool true)
  | .keyword .false_ => return .literal token.pos (.bool false)
  | .symbol .lbracket => do
      let (elements, _) ← closedList .rbracket expr
      return .array token.pos elements
  | .symbol .lbrace => do
      let (properties, _) ← closedList .rbrace (property expr)
      return .object token.pos properties
  | .identifier => accesses limit expr (.ident token.pos token.text)
  | .symbol .lparen => parenthesized expr token.pos
  | kind => fail token.pos (.notAnExpression kind)

/-- A choice between two expressions, or what binds tighter. -/
def ternary (limit : Nat) (expr : Parser Expr) : Parser Expr := do
  let condition ← binary limit (unaryWithin limit (primary limit expr) limit) BinaryOp.Level.all
  if ← take (.symbol .question) then
    let yes ← expr
    let _ ← consume (.symbol .colon)
    let no ← expr
    return .ternary condition.pos condition yes no
  else
    return condition

/-- An expression with at most `levels` expressions inside each other. -/
def exprWithin (limit : Nat) : (levels : Nat) → Parser Expr
  | 0 => tooDeep limit
  | levels + 1 => nested limit (ternary limit (exprWithin limit levels))

/-- An expression. No more levels can be open than `limit` allows, so as many are enough. -/
def expr (limit : Nat) : Parser Expr :=
  exprWithin limit limit

/-- An expression with nothing after it. -/
def wholeExpr (limit : Nat) : Parser Expr := do
  let value ← expr limit
  let _ ← consume .eof
  return value

end Covenant.Parser

/-- Reads a source that is one expression. -/
def Covenant.Expr.parse (limits : Covenant.Limits) (source : String) :
    Except Covenant.CompileError Covenant.Expr :=
  Covenant.Parser.runSource limits (Covenant.Parser.wholeExpr limits.depth) source
