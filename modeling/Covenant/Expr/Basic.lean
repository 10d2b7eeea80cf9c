import Covenant.Expr.Operator
import Covenant.Source.Position

/-! Expressions. Every node carries the place of its first token, except that a chain of operators
or accesses carries the place of the node it grew from. -/

namespace Covenant

inductive Literal where
  /-- A number keeps the digits it was written with. -/
  | number (digits : String)
  | string (value : String)
  | bool (value : Bool)
deriving DecidableEq

inductive Expr where
  | literal (pos : Position) (value : Literal)
  | ident (pos : Position) (name : String)
  | unary (pos : Position) (op : UnaryOp) (operand : Expr)
  | binary (pos : Position) (op : BinaryOp) (left right : Expr)
  | ternary (pos : Position) (condition yes no : Expr)
  | member (pos : Position) (base : Expr) (name : String)
  | index (pos : Position) (base key : Expr)
  | call (pos : Position) (callee : Expr) (arguments : List Expr)
  | tuple (pos : Position) (elements : List Expr)
  | array (pos : Position) (elements : List Expr)
  | object (pos : Position) (properties : List (String × Expr))

namespace Expr

def pos : Expr → Position
  | literal pos _ | ident pos _ | unary pos _ _ | binary pos _ _ _ | ternary pos _ _ _
  | member pos _ _ | index pos _ _ | call pos _ _ | tuple pos _ | array pos _ | object pos _ => pos

/-- The forms of expression that messages and trees tell apart. -/
inductive Form where
  | literal | identifier | arithmetic | bitwise | logical | unary | ternary
  | member | index | call | tuple | array | object
deriving DecidableEq

def Form.name : Form → String
  | literal => "Literal"
  | identifier => "Identifier"
  | arithmetic => "BinaryOp"
  | bitwise => "BitwiseOp"
  | logical => "LogicalOp"
  | unary => "UnaryOp"
  | ternary => "TernaryOp"
  | member => "MemberAccess"
  | index => "IndexAccess"
  | call => "FunctionCall"
  | tuple => "Tuple"
  | array => "ArrayLiteral"
  | object => "ObjectLiteral"

end Expr

/-- Comparisons and arithmetic are one form. -/
def BinaryOp.form (op : BinaryOp) : Expr.Form :=
  match op.level with
  | .logical => .logical
  | .bitwise => .bitwise
  | .comparison | .additive | .multiplicative => .arithmetic

def Expr.form : Expr → Expr.Form
  | literal _ _ => .literal
  | ident _ _ => .identifier
  | unary _ _ _ => .unary
  | binary _ op _ _ => op.form
  | ternary _ _ _ _ => .ternary
  | member _ _ _ => .member
  | index _ _ _ => .index
  | call _ _ _ => .call
  | tuple _ _ => .tuple
  | array _ _ => .array
  | object _ _ => .object

end Covenant
