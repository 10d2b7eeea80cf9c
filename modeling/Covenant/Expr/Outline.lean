import Covenant.Expr.Basic
import Covenant.Outline
import Covenant.Text.Quoted

/-! Expressions as text trees. -/

namespace Covenant

def Literal.label : Literal → String
  | number digits => s!"number {digits}"
  | string value => s!"string {Text.quoted value}"
  | bool value => s!"bool {value}"

/-- The word in front of an operator with two operands. -/
def BinaryOp.label (op : BinaryOp) : String :=
  match op.level with
  | .logical => "logical"
  | .bitwise => "bitwise"
  | .comparison | .additive | .multiplicative => "binary"

namespace Expr

/-- A label with the place of its node. -/
def labelAt (pos : Position) (label : String) : String :=
  s!"{label} ({pos.render})"

mutual

def outline : Expr → Outline
  | literal pos value => .leaf (labelAt pos value.label)
  | ident pos name => .leaf (labelAt pos s!"ident {name}")
  | unary pos op operand =>
      .node (labelAt pos s!"unary {op.symbol.spelling}") [operand.outline]
  | binary pos op left right =>
      .node (labelAt pos s!"{op.label} {op.symbol.spelling}") [left.outline, right.outline]
  | ternary pos condition yes no =>
      .node (labelAt pos "ternary") [condition.outline, yes.outline, no.outline]
  | member pos base name => .node (labelAt pos s!"member .{name}") [base.outline]
  | index pos base key => .node (labelAt pos "index") [base.outline, key.outline]
  | call pos callee arguments =>
      .node (labelAt pos "call") (outlinesOnto [callee.outline] arguments)
  | tuple pos elements => .node (labelAt pos "tuple") (outlinesOnto [] elements)
  | array pos elements => .node (labelAt pos "array") (outlinesOnto [] elements)
  | object pos properties => .node (labelAt pos "object") (propertiesOnto [] properties)
termination_by structural expr => expr

/-- The trees of `done`, latest first, and then those of the expressions. -/
def outlinesOnto (done : List Outline) : List Expr → List Outline
  | [] => done.reverse
  | expr :: exprs => outlinesOnto (expr.outline :: done) exprs
termination_by structural exprs => exprs

def propertiesOnto (done : List Outline) : List (String × Expr) → List Outline
  | [] => done.reverse
  | (key, value) :: properties =>
      propertiesOnto (.node s!"property {key}" [value.outline] :: done) properties
termination_by structural properties => properties

end

@[simp] theorem outlinesOnto_eq (done : List Outline) (exprs : List Expr) :
    outlinesOnto done exprs = done.reverse ++ exprs.map outline := by
  induction exprs generalizing done with
  | nil => simp [outlinesOnto]
  | cons expr exprs induction => simp [outlinesOnto, induction]

@[simp] theorem propertiesOnto_eq (done : List Outline) (properties : List (String × Expr)) :
    propertiesOnto done properties =
      done.reverse ++ properties.map fun (key, value) =>
        .node s!"property {key}" [value.outline] := by
  induction properties generalizing done with
  | nil => simp [propertiesOnto]
  | cons property properties induction =>
      obtain ⟨key, value⟩ := property
      simp [propertiesOnto, induction]

end Expr

end Covenant
