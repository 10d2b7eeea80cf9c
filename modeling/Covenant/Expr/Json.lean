import Covenant.Expr.Basic
import Covenant.Json.Basic

/-! Expressions as JSON. A node names its form first and its place last. -/

namespace Covenant

def Position.toJson (pos : Position) : Json :=
  .object [("line", .number pos.line), ("column", .number pos.column)]

/-- Digits stay text. -/
def Literal.toJson : Literal → Json
  | number digits => .string digits
  | string value => .string value
  | bool value => .bool value

namespace Expr

def jsonNode (form : String) (pos : Position) (fields : List (String × Json)) : Json :=
  .object (("type", .string form) :: fields ++ [("pos", pos.toJson)])

mutual

def toJson : Expr → Json
  | literal pos value => jsonNode Form.literal.name pos [("value", value.toJson)]
  | ident pos name => jsonNode Form.identifier.name pos [("name", .string name)]
  | unary pos op operand =>
      jsonNode Form.unary.name pos
        [("operator", .string op.symbol.spelling), ("operand", operand.toJson)]
  | binary pos op left right =>
      jsonNode op.form.name pos
        [("left", left.toJson), ("operator", .string op.symbol.spelling), ("right", right.toJson)]
  | ternary pos condition yes no =>
      jsonNode Form.ternary.name pos
        [("condition", condition.toJson), ("trueBranch", yes.toJson), ("falseBranch", no.toJson)]
  | member pos base name =>
      jsonNode Form.member.name pos [("object", base.toJson), ("member", .string name)]
  | index pos base key =>
      jsonNode Form.index.name pos [("object", base.toJson), ("index", key.toJson)]
  | call pos callee arguments =>
      jsonNode Form.call.name pos
        [("callee", callee.toJson), ("arguments", .array (jsonOnto [] arguments))]
  | tuple pos elements =>
      jsonNode Form.tuple.name pos [("elements", .array (jsonOnto [] elements))]
  | array pos elements =>
      jsonNode Form.array.name pos [("elements", .array (jsonOnto [] elements))]
  | object pos properties =>
      jsonNode Form.object.name pos [("properties", .array (propertyJsonOnto [] properties))]
termination_by structural expr => expr

/-- The values of `done`, latest first, and then those of the expressions. -/
def jsonOnto (done : List Json) : List Expr → List Json
  | [] => done.reverse
  | expr :: exprs => jsonOnto (expr.toJson :: done) exprs
termination_by structural exprs => exprs

def propertyJsonOnto (done : List Json) : List (String × Expr) → List Json
  | [] => done.reverse
  | (key, value) :: properties =>
      propertyJsonOnto (.object [("key", .string key), ("value", value.toJson)] :: done) properties
termination_by structural properties => properties

end

@[simp] theorem jsonOnto_eq (done : List Json) (exprs : List Expr) :
    jsonOnto done exprs = done.reverse ++ exprs.map toJson := by
  induction exprs generalizing done with
  | nil => simp [jsonOnto]
  | cons expr exprs induction => simp [jsonOnto, induction]

@[simp] theorem propertyJsonOnto_eq (done : List Json) (properties : List (String × Expr)) :
    propertyJsonOnto done properties =
      done.reverse ++ properties.map fun (key, value) =>
        .object [("key", .string key), ("value", value.toJson)] := by
  induction properties generalizing done with
  | nil => simp [propertyJsonOnto]
  | cons property properties induction =>
      obtain ⟨key, value⟩ := property
      simp [propertyJsonOnto, induction]

end Expr

end Covenant
