import Covenant.Token.Kind

/-! The operators of expressions and the symbols that write them. -/

namespace Covenant

inductive UnaryOp where
  | not | neg | bitNot
deriving DecidableEq

namespace UnaryOp

def symbol : UnaryOp → Symbol
  | not => .bang
  | neg => .minus
  | bitNot => .tilde

def ofSymbol? : Symbol → Option UnaryOp
  | .bang => some not
  | .minus => some neg
  | .tilde => some bitNot
  | _ => none

theorem ofSymbol?_eq_some_iff {symbol : Symbol} {op : UnaryOp} :
    ofSymbol? symbol = some op ↔ symbol = op.symbol := by
  cases op <;> cases symbol <;> decide

end UnaryOp

inductive BinaryOp where
  | and | or
  | bitAnd | bitOr | bitXor
  | lt | gt | eq | ne | le | ge
  | add | sub
  | mul | div | rem
deriving DecidableEq

namespace BinaryOp

def symbol : BinaryOp → Symbol
  | and => .andAnd
  | or => .orOr
  | bitAnd => .amp
  | bitOr => .pipe
  | bitXor => .caret
  | lt => .less
  | gt => .greater
  | eq => .eqEq
  | ne => .notEq
  | le => .lessEq
  | ge => .greaterEq
  | add => .plus
  | sub => .minus
  | mul => .star
  | div => .slash
  | rem => .percent

def ofSymbol? : Symbol → Option BinaryOp
  | .andAnd => some and
  | .orOr => some or
  | .amp => some bitAnd
  | .pipe => some bitOr
  | .caret => some bitXor
  | .less => some lt
  | .greater => some gt
  | .eqEq => some eq
  | .notEq => some ne
  | .lessEq => some le
  | .greaterEq => some ge
  | .plus => some add
  | .minus => some sub
  | .star => some mul
  | .slash => some div
  | .percent => some rem
  | _ => none

theorem ofSymbol?_eq_some_iff {symbol : Symbol} {op : BinaryOp} :
    ofSymbol? symbol = some op ↔ symbol = op.symbol := by
  cases op <;> cases symbol <;> decide

/-- How tightly an operator binds. All operators of a level associate to the left. -/
inductive Level where
  | logical | bitwise | comparison | additive | multiplicative
deriving DecidableEq

/-- From the loosest to the tightest. -/
def Level.all : List Level :=
  [.logical, .bitwise, .comparison, .additive, .multiplicative]

def level : BinaryOp → Level
  | and | or => .logical
  | bitAnd | bitOr | bitXor => .bitwise
  | lt | gt | eq | ne | le | ge => .comparison
  | add | sub => .additive
  | mul | div | rem => .multiplicative

end BinaryOp

end Covenant
