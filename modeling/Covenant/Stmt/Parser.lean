import Covenant.Expr.Parser

/-! Reading statements and blocks. -/

namespace Covenant.Parser

/-- A block of the statements that `statements` reads. -/
def blockOf (statements : Parser (List Stmt)) : Parser (List Stmt) := do
  let _ ← consume (.symbol .lbrace)
  let body ← statements
  let _ ← consume (.symbol .rbrace)
  return body

/-- A branch. Another branch may follow directly after `else`; it is then the only statement there. -/
def branchOver (expr : Parser Expr) (block : Parser (List Stmt)) (elseBranch : Parser Stmt) :
    Parser Stmt := do
  let token ← consume (.keyword .if_)
  let condition ← expr
  let yes ← block
  if ← take (.keyword .else_) then
    let next ← peek
    match next.kind with
    | .symbol .lbrace => return .if_ token.pos condition yes (some (← block))
    | .keyword .if_ => return .if_ token.pos condition yes (some [← elseBranch])
    | kind => fail next.pos (.badElse kind)
  else
    return .if_ token.pos condition yes none

/-- A branch with at most `levels` others in its chain. -/
def branchWithin (limit : Nat) (expr : Parser Expr) (block : Parser (List Stmt)) :
    (levels : Nat) → Parser Stmt
  | 0 => branchOver expr block (tooDeep limit)
  | levels + 1 => branchOver expr block (nested limit (branchWithin limit expr block levels))

def failFor {α : Type} (part : ForPart) : Parser α := do
  let token ← peek
  fail token.pos (.badFor part token.kind)

/-- A counting loop. The step is one unless it is given. -/
def countingLoop (expr : Parser Expr) (block : Parser (List Stmt)) : Parser Stmt := do
  let token ← consume (.keyword .for_)
  let name ← peek
  if name.kind ≠ .identifier then
    failFor .counter
  else
    let _ ← advance
    let counter : Ident := ⟨name.text, name.pos⟩
    if !(← take (.symbol .assign)) then
      failFor .assign
    else
      let start ← expr
      if !(← takeWord "to") then
        failFor .bound
      else
        let bound ← expr
        let step ← if ← takeWord "step" then expr
          else pure (.literal counter.pos (.number "1"))
        let body ← block
        return .for_ token.pos counter start bound (Stmt.countBy counter step) body

/-- Whether a statement can end before the next token. -/
def atStmtEnd : Parser Bool := do
  let token ← peek
  return token.kind = .symbol .semicolon || token.kind = .symbol .rbrace || token.kind = .eof

/-- A statement that starts with an expression: an assignment if an equals sign follows. -/
def exprStmt (expr : Parser Expr) (pos : Position) : Parser Stmt := do
  let target ← expr
  if ← take (.symbol .assign) then
    return .assign pos ⟨target, ← expr⟩
  else
    return .expr pos target

/-- A statement after which a semicolon may stand. -/
def simpleStmt (expr : Parser Expr) (block : Parser (List Stmt)) : Parser Stmt := do
  let token ← peek
  match token.kind with
  | .keyword .while_ => do
      let _ ← advance
      let condition ← expr
      return .while_ token.pos condition (← block)
  | .keyword .return_ => do
      let _ ← advance
      if ← atStmtEnd then
        return .return_ token.pos none
      else
        return .return_ token.pos (some (← expr))
  | .keyword .break_ => do
      let _ ← advance
      return .break_ token.pos
  | .keyword .continue_ => do
      let _ ← advance
      return .continue_ token.pos
  | _ => exprStmt expr token.pos

def stmt (limit : Nat) (block : Parser (List Stmt)) : Parser Stmt := do
  match (← peek).kind with
  | .keyword .if_ => branchWithin limit (expr limit) block limit
  | .keyword .for_ => countingLoop (expr limit) block
  | _ => do
      let statement ← simpleStmt (expr limit) block
      let _ ← take (.symbol .semicolon)
      return statement

/-- A block with at most `levels` blocks inside each other. -/
def blockWithin (limit : Nat) : (levels : Nat) → Parser (List Stmt)
  | 0 => blockOf (tooDeep limit)
  | levels + 1 =>
      blockOf (nested limit (many (.symbol .rbrace) (stmt limit (blockWithin limit levels))))

/-- A block. No more levels can be open than `limit` allows, so as many are enough. -/
def block (limit : Nat) : Parser (List Stmt) :=
  blockWithin limit limit

end Covenant.Parser
