import Covenant.Proofs.Json.Same
import Covenant.Proofs.Lists
import Covenant.Stmt.Json
import Mathlib

/-! What the JSON form of an expression or a statement tells: everything but whether a literal is a
number or a string. Both are written as JSON strings, a number with its digits. -/

namespace Covenant

open Json (Same)

theorem Position.eq_of_same {left right : Position} (same : left.toJson.Same right.toJson) :
    left = right := by
  have lines := (same.field "line" rfl rfl).number_inj
  have columns := (same.field "column" rfl rfl).number_inj
  exact congrArg₂ Position.mk lines columns

namespace Json

/-- An object that names a form and a place. -/
def IsNode (json : Json) (form : String) (pos : Position) : Prop :=
  ∃ fields, json = object fields ∧ fields.lookup "type" = some (string form) ∧
    fields.lookup "pos" = some pos.toJson

theorem IsNode.eq_of_same {json json' : Json} {form form' : String} {pos pos' : Position}
    (isNode : json.IsNode form pos) (isNode' : json'.IsNode form' pos') (same : json.Same json') :
    form = form' ∧ pos = pos' := by
  obtain ⟨fields, rfl, type, place⟩ := isNode
  obtain ⟨fields', rfl, type', place'⟩ := isNode'
  have forms := (same.field "type" type type').string_inj
  have places := Position.eq_of_same (same.field "pos" place place')
  exact ⟨forms, places⟩

theorem IsNode.ne_null {json : Json} {form : String} {pos : Position}
    (isNode : json.IsNode form pos) : json ≠ null := by
  obtain ⟨fields, rfl, _⟩ := isNode
  exact Json.noConfusion

end Json

theorem UnaryOp.spelling_inj {left right : UnaryOp}
    (same : left.symbol.spelling = right.symbol.spelling) : left = right := by
  cases left <;> cases right <;> simp [symbol, Symbol.spelling] at same ⊢

theorem BinaryOp.spelling_inj {left right : BinaryOp}
    (same : left.symbol.spelling = right.symbol.spelling) : left = right := by
  cases left <;> cases right <;> simp [symbol, Symbol.spelling] at same ⊢

namespace Literal

/-- The string that shows like a number. -/
def quoteNumber : Literal → Literal
  | number digits => string digits
  | string value => string value
  | bool value => bool value

@[simp] theorem toJson_quoteNumber (literal : Literal) :
    literal.quoteNumber.toJson = literal.toJson := by
  cases literal <;> rfl

theorem eq_of_same {left right : Literal} (same : left.toJson.Same right.toJson) :
    left.quoteNumber = right.quoteNumber := by
  cases left <;> cases right <;> cases same <;> rfl

end Literal

namespace Expr

mutual

/-- Makes every number of an expression a string. -/
def quoteNumbers : Expr → Expr
  | literal pos value => literal pos value.quoteNumber
  | ident pos name => ident pos name
  | unary pos op operand => unary pos op operand.quoteNumbers
  | binary pos op left right => binary pos op left.quoteNumbers right.quoteNumbers
  | ternary pos condition yes no =>
      ternary pos condition.quoteNumbers yes.quoteNumbers no.quoteNumbers
  | member pos base name => member pos base.quoteNumbers name
  | index pos base key => index pos base.quoteNumbers key.quoteNumbers
  | call pos callee arguments => call pos callee.quoteNumbers (quoteAll arguments)
  | tuple pos elements => tuple pos (quoteAll elements)
  | array pos elements => array pos (quoteAll elements)
  | object pos properties => object pos (quoteProperties properties)
termination_by structural expr => expr

def quoteAll : List Expr → List Expr
  | [] => []
  | expr :: exprs => expr.quoteNumbers :: quoteAll exprs
termination_by structural exprs => exprs

def quoteProperties : List (String × Expr) → List (String × Expr)
  | [] => []
  | (key, value) :: properties => (key, value.quoteNumbers) :: quoteProperties properties
termination_by structural properties => properties

end

@[simp] theorem quoteAll_eq (exprs : List Expr) : quoteAll exprs = exprs.map quoteNumbers := by
  induction exprs with
  | nil => simp [quoteAll]
  | cons expr exprs induction => simp [quoteAll, induction]

@[simp] theorem quoteProperties_eq (properties : List (String × Expr)) :
    quoteProperties properties =
      properties.map fun property => (property.1, property.2.quoteNumbers) := by
  induction properties with
  | nil => simp [quoteProperties]
  | cons property properties induction =>
      obtain ⟨key, value⟩ := property
      simp [quoteProperties, induction]

@[simp] theorem toJson_quoteNumbers (expr : Expr) : expr.quoteNumbers.toJson = expr.toJson := by
  induction expr using parts_induction with
  | step expr induction =>
      cases expr with
      | literal | ident => simp [quoteNumbers, toJson]
      | unary | binary | ternary | member | index => simp_all [quoteNumbers, toJson, parts]
      | call pos callee arguments =>
          obtain ⟨callees, others⟩ := List.forall_mem_cons.1 induction
          simp only [quoteNumbers, toJson, quoteAll_eq, jsonOnto_eq, callees,
            map_map_of_kept others]
      | tuple pos elements | array pos elements =>
          have all := map_map_of_kept (show ∀ element ∈ elements, _ from induction)
          simp only [quoteNumbers, toJson, quoteAll_eq, jsonOnto_eq, all]
      | object pos properties =>
          simp only [quoteNumbers, toJson, quoteProperties_eq, propertyJsonOnto_eq, List.map_map]
          congr 5
          refine List.map_congr_left fun property member => ?_
          simp [induction property.2 (List.mem_map_of_mem member)]

/-- Expressions of one constructor at one place. -/
inductive Paired : Expr → Expr → Prop where
  | literal {pos : Position} {value value' : Literal} :
      Paired (literal pos value) (literal pos value')
  | ident {pos : Position} {name name' : String} : Paired (ident pos name) (ident pos name')
  | unary {pos : Position} {op op' : UnaryOp} {operand operand' : Expr} :
      Paired (unary pos op operand) (unary pos op' operand')
  | binary {pos : Position} {op op' : BinaryOp} {left left' right right' : Expr} :
      Paired (binary pos op left right) (binary pos op' left' right')
  | ternary {pos : Position} {condition condition' yes yes' no no' : Expr} :
      Paired (ternary pos condition yes no) (ternary pos condition' yes' no')
  | member {pos : Position} {base base' : Expr} {name name' : String} :
      Paired (member pos base name) (member pos base' name')
  | index {pos : Position} {base base' key key' : Expr} :
      Paired (index pos base key) (index pos base' key')
  | call {pos : Position} {callee callee' : Expr} {arguments arguments' : List Expr} :
      Paired (call pos callee arguments) (call pos callee' arguments')
  | tuple {pos : Position} {elements elements' : List Expr} :
      Paired (tuple pos elements) (tuple pos elements')
  | array {pos : Position} {elements elements' : List Expr} :
      Paired (array pos elements) (array pos elements')
  | object {pos : Position} {properties properties' : List (String × Expr)} :
      Paired (object pos properties) (object pos properties')

theorem Form.name_inj {left right : Form} (same : left.name = right.name) : left = right := by
  cases left <;> cases right <;> simp [name] at same ⊢

/-- The form of an expression, with one form for all binary operations. -/
def shape : Expr → Form
  | binary _ _ _ _ => .arithmetic
  | expr => expr.form

theorem shape_eq_of_form_eq {left right : Expr} (same : left.form = right.form) :
    left.shape = right.shape := by
  have merged (expr : Expr) : expr.shape =
      if expr.form ∈ [.arithmetic, .bitwise, .logical] then .arithmetic else expr.form := by
    cases expr with
    | binary pos op left right => cases op <;> rfl
    | literal | ident | unary | ternary | member | index | call | tuple | array | object => rfl
  rw [merged, merged, same]

theorem paired_of_shape {left right : Expr} (same : left.shape = right.shape)
    (places : left.pos = right.pos) : Paired left right := by
  cases left <;> cases right <;> simp only [shape, form, reduceCtorEq] at same <;>
    cases places <;> constructor

theorem isNode_toJson (expr : Expr) : expr.toJson.IsNode expr.form.name expr.pos := by
  cases expr <;> exact ⟨_, rfl, rfl, rfl⟩

theorem paired_of_same {left right : Expr} (same : left.toJson.Same right.toJson) :
    Paired left right := by
  obtain ⟨names, places⟩ := left.isNode_toJson.eq_of_same right.isNode_toJson same
  exact paired_of_shape (shape_eq_of_form_eq (Form.name_inj names)) places

theorem eq_of_same {left right : Expr} (same : left.toJson.Same right.toJson) :
    left.quoteNumbers = right.quoteNumbers := by
  induction left using parts_induction generalizing right with
  | step left induction =>
      have all {exprs others : List Expr} (inside : exprs ⊆ left.parts)
          (same : (Json.array (jsonOnto [] exprs)).Same (.array (jsonOnto [] others))) :
          exprs.map quoteNumbers = others.map quoteNumbers := by
        rw [jsonOnto_eq, jsonOnto_eq] at same
        exact same.map_eq fun expr member other _ same => induction expr (inside member) same
      cases paired_of_same same with
      | literal =>
          have values := Literal.eq_of_same (same.field "value" rfl rfl)
          rw [quoteNumbers, quoteNumbers, values]
      | ident =>
          have names := (same.field "name" rfl rfl).string_inj
          rw [names]
      | unary =>
          have ops := UnaryOp.spelling_inj (same.field "operator" rfl rfl).string_inj
          have operands := induction _ (by simp [parts]) (same.field "operand" rfl rfl)
          rw [quoteNumbers, quoteNumbers, ops, operands]
      | binary =>
          have ops := BinaryOp.spelling_inj (same.field "operator" rfl rfl).string_inj
          have lefts := induction _ (by simp [parts]) (same.field "left" rfl rfl)
          have rights := induction _ (by simp [parts]) (same.field "right" rfl rfl)
          rw [quoteNumbers, quoteNumbers, ops, lefts, rights]
      | ternary =>
          have conditions := induction _ (by simp [parts]) (same.field "condition" rfl rfl)
          have yes := induction _ (by simp [parts]) (same.field "trueBranch" rfl rfl)
          have no := induction _ (by simp [parts]) (same.field "falseBranch" rfl rfl)
          rw [quoteNumbers, quoteNumbers, conditions, yes, no]
      | member =>
          have bases := induction _ (by simp [parts]) (same.field "object" rfl rfl)
          have names := (same.field "member" rfl rfl).string_inj
          rw [quoteNumbers, quoteNumbers, bases, names]
      | index =>
          have bases := induction _ (by simp [parts]) (same.field "object" rfl rfl)
          have keys := induction _ (by simp [parts]) (same.field "index" rfl rfl)
          rw [quoteNumbers, quoteNumbers, bases, keys]
      | call =>
          have callees := induction _ (by simp [parts]) (same.field "callee" rfl rfl)
          have arguments := all (by simp [parts]) (same.field "arguments" rfl rfl)
          rw [quoteNumbers, quoteNumbers, callees, quoteAll_eq, quoteAll_eq, arguments]
      | tuple | array =>
          have elements := all (by simp [parts]) (same.field "elements" rfl rfl)
          rw [quoteNumbers, quoteNumbers, quoteAll_eq, quoteAll_eq, elements]
      | object =>
          have properties := same.field "properties" rfl rfl
          rw [propertyJsonOnto_eq, propertyJsonOnto_eq] at properties
          rw [quoteNumbers, quoteNumbers, quoteProperties_eq, quoteProperties_eq]
          refine congrArg _ (properties.map_eq fun property member other _ same => ?_)
          have keys := (same.field "key" rfl rfl).string_inj
          have values := induction _ (List.mem_map_of_mem member) (same.field "value" rfl rfl)
          rw [keys, values]

theorem option_eq_of_same {left right : Option Expr}
    (same : Same (.ofOption toJson left) (.ofOption toJson right)) :
    left.map quoteNumbers = right.map quoteNumbers :=
  same.option_map_eq (fun expr => expr.isNode_toJson.ne_null) fun _ _ _ _ same => eq_of_same same

theorem same_iff {left right : Expr} :
    left.toJson.Same right.toJson ↔ left.quoteNumbers = right.quoteNumbers := by
  refine ⟨eq_of_same, fun same => ?_⟩
  rw [← toJson_quoteNumbers left, same, toJson_quoteNumbers]
  exact .refl _

end Expr

def Assignment.quoteNumbers (assignment : Assignment) : Assignment :=
  ⟨assignment.target.quoteNumbers, assignment.value.quoteNumbers⟩

namespace Stmt

mutual

/-- Makes every number of a statement a string. -/
def quoteNumbers : Stmt → Stmt
  | assign pos assignment => assign pos assignment.quoteNumbers
  | if_ pos condition yes no =>
      if_ pos condition.quoteNumbers (quoteAll yes)
        (match no with
        | none => none
        | some body => some (quoteAll body))
  | while_ pos condition body => while_ pos condition.quoteNumbers (quoteAll body)
  | for_ pos counter start bound increment body =>
      for_ pos counter start.quoteNumbers bound.quoteNumbers increment.quoteNumbers (quoteAll body)
  | break_ pos => break_ pos
  | continue_ pos => continue_ pos
  | return_ pos value => return_ pos (value.map Expr.quoteNumbers)
  | expr pos value => expr pos value.quoteNumbers
termination_by structural stmt => stmt

def quoteAll : List Stmt → List Stmt
  | [] => []
  | stmt :: stmts => stmt.quoteNumbers :: quoteAll stmts
termination_by structural stmts => stmts

end

@[simp] theorem quoteAll_eq (stmts : List Stmt) : quoteAll stmts = stmts.map quoteNumbers := by
  induction stmts with
  | nil => simp [quoteAll]
  | cons stmt stmts induction => simp [quoteAll, induction]

/-! The alternative of a condition may be missing. -/

theorem quoteNumbers_if (pos : Position) (condition : Expr) (yes : List Stmt)
    (no : Option (List Stmt)) :
    (if_ pos condition yes no).quoteNumbers =
      if_ pos condition.quoteNumbers (yes.map quoteNumbers) (no.map (List.map quoteNumbers)) := by
  cases no <;> simp [quoteNumbers]

theorem toJson_if (pos : Position) (condition : Expr) (yes : List Stmt)
    (no : Option (List Stmt)) :
    (if_ pos condition yes no).toJson =
      Expr.jsonNode "IfStatement" pos
        [("condition", condition.toJson),
          ("thenBlock", .array (yes.map toJson)),
          ("elseBlock", .ofOption (fun body => .array (body.map toJson)) no)] := by
  cases no <;> simp [toJson, Json.ofOption]

@[simp] theorem assignFields_quoteNumbers (assignment : Assignment) :
    assignFields assignment.quoteNumbers = assignFields assignment := by
  simp [assignFields, Assignment.quoteNumbers]

@[simp] theorem toJson_quoteNumbers (stmt : Stmt) : stmt.quoteNumbers.toJson = stmt.toJson := by
  induction stmt using parts_induction with
  | step stmt induction =>
      have all {stmts : List Stmt} (inside : stmts ⊆ stmt.parts) :=
        map_map_of_kept fun stmt member => induction stmt (inside member)
      cases stmt with
      | assign | break_ | continue_ | expr => simp [quoteNumbers, toJson]
      | return_ pos value => cases value <;> simp [quoteNumbers, toJson, Json.ofOption]
      | while_ pos condition body =>
          have body := @all body (by simp [parts])
          simp only [quoteNumbers, toJson, quoteAll_eq, jsonOnto_eq, Expr.toJson_quoteNumbers, body]
      | for_ pos counter start bound increment body =>
          have body := @all body (by simp [parts])
          have start : assignFields ⟨counterExpr counter, start.quoteNumbers⟩ = _ :=
            assignFields_quoteNumbers ⟨counterExpr counter, start⟩
          simp only [quoteNumbers, toJson, quoteAll_eq, jsonOnto_eq, Expr.toJson_quoteNumbers,
            assignFields_quoteNumbers, start, body]
      | if_ pos condition yes no =>
          have yes := @all yes (by simp [parts])
          rw [quoteNumbers_if, toJson_if, toJson_if, yes, Expr.toJson_quoteNumbers]
          cases no with
          | none => rfl
          | some body =>
              have no := @all body (by simp [parts])
              simp only [Option.map_some, Json.ofOption, no]

/-- Statements of one constructor at one place. -/
inductive Paired : Stmt → Stmt → Prop where
  | assign {pos : Position} {assignment assignment' : Assignment} :
      Paired (assign pos assignment) (assign pos assignment')
  | if_ {pos : Position} {condition condition' : Expr} {yes yes' : List Stmt}
      {no no' : Option (List Stmt)} :
      Paired (if_ pos condition yes no) (if_ pos condition' yes' no')
  | while_ {pos : Position} {condition condition' : Expr} {body body' : List Stmt} :
      Paired (while_ pos condition body) (while_ pos condition' body')
  | for_ {pos : Position} {counter counter' : Ident} {start start' bound bound' : Expr}
      {increment increment' : Assignment} {body body' : List Stmt} :
      Paired (for_ pos counter start bound increment body)
        (for_ pos counter' start' bound' increment' body')
  | break_ {pos : Position} : Paired (break_ pos) (break_ pos)
  | continue_ {pos : Position} : Paired (continue_ pos) (continue_ pos)
  | return_ {pos : Position} {value value' : Option Expr} :
      Paired (return_ pos value) (return_ pos value')
  | expr {pos : Position} {value value' : Expr} : Paired (expr pos value) (expr pos value')

def form : Stmt → String
  | assign _ _ => "VariableAssignment"
  | if_ _ _ _ _ => "IfStatement"
  | while_ _ _ _ => "WhileStatement"
  | for_ _ _ _ _ _ _ => "ForStatement"
  | break_ _ => "BreakStatement"
  | continue_ _ => "ContinueStatement"
  | return_ _ _ => "ReturnStatement"
  | expr _ _ => "ExpressionStatement"

theorem paired_of_form {left right : Stmt} (same : left.form = right.form)
    (places : left.pos = right.pos) : Paired left right := by
  cases left <;> cases right <;> simp only [form, String.reduceEq] at same <;>
    cases places <;> constructor

theorem isNode_toJson (stmt : Stmt) : stmt.toJson.IsNode stmt.form stmt.pos := by
  cases stmt with
  | if_ pos condition yes no => exact ⟨_, toJson_if pos condition yes no, rfl, rfl⟩
  | assign | while_ | for_ | break_ | continue_ | return_ | expr => exact ⟨_, rfl, rfl, rfl⟩

theorem paired_of_same {left right : Stmt} (same : left.toJson.Same right.toJson) :
    Paired left right := by
  obtain ⟨forms, places⟩ := left.isNode_toJson.eq_of_same right.isNode_toJson same
  exact paired_of_form forms places

theorem counter_eq_of_same {left right : Ident}
    (same : (counterExpr left).toJson.Same (counterExpr right).toJson) : left = right := by
  have names := (same.field "name" rfl rfl).string_inj
  have places := Position.eq_of_same (same.field "pos" rfl rfl)
  exact congrArg₂ Ident.mk names places

theorem assignment_eq_of_same {left right : Assignment}
    (same : Same (.object (assignFields left)) (.object (assignFields right))) :
    left.quoteNumbers = right.quoteNumbers := by
  have targets := Expr.eq_of_same (same.field "varName" rfl rfl)
  have values := Expr.eq_of_same (same.field "expression" rfl rfl)
  exact congrArg₂ Assignment.mk targets values

theorem eq_of_same {left right : Stmt} (same : left.toJson.Same right.toJson) :
    left.quoteNumbers = right.quoteNumbers := by
  induction left using parts_induction generalizing right with
  | step left induction =>
      have all {stmts others : List Stmt} (inside : stmts ⊆ left.parts)
          (same : (Json.array (stmts.map toJson)).Same (.array (others.map toJson))) :
          stmts.map quoteNumbers = others.map quoteNumbers :=
        same.map_eq fun stmt member other _ same => induction stmt (inside member) same
      cases paired_of_same same with
      | assign =>
          have targets := Expr.eq_of_same (same.field "varName" rfl rfl)
          have values := Expr.eq_of_same (same.field "expression" rfl rfl)
          exact congrArg (assign _) (congrArg₂ Assignment.mk targets values)
      | if_ =>
          rw [toJson_if, toJson_if] at same
          have conditions := Expr.eq_of_same (same.field "condition" rfl rfl)
          have yes := all (by simp [parts]) (same.field "thenBlock" rfl rfl)
          have no := (same.field "elseBlock" rfl rfl).option_map_eq (by simp)
            fun body isBody _ _ same => all (by simp [parts, Option.mem_def.1 isBody]) same
          rw [quoteNumbers_if, quoteNumbers_if, conditions, yes, no]
      | while_ =>
          have conditions := Expr.eq_of_same (same.field "condition" rfl rfl)
          have bodies := same.field "body" rfl rfl
          rw [jsonOnto_eq, jsonOnto_eq] at bodies
          rw [quoteNumbers, quoteNumbers, conditions, quoteAll_eq, quoteAll_eq,
            all (by simp [parts]) bodies]
      | for_ =>
          have setup := same.field "initialization" rfl rfl
          have counters := counter_eq_of_same (setup.field "varName" rfl rfl)
          have starts := Expr.eq_of_same (setup.field "expression" rfl rfl)
          have bounds := Expr.eq_of_same (same.field "condition" rfl rfl)
          have increments := assignment_eq_of_same (same.field "increment" rfl rfl)
          have bodies := same.field "body" rfl rfl
          rw [jsonOnto_eq, jsonOnto_eq] at bodies
          rw [quoteNumbers, quoteNumbers, counters, starts, bounds, increments, quoteAll_eq,
            quoteAll_eq, all (by simp [parts]) bodies]
      | break_ | continue_ => rfl
      | return_ =>
          have values := Expr.option_eq_of_same (same.field "expression" rfl rfl)
          rw [quoteNumbers, quoteNumbers, values]
      | expr =>
          have values := Expr.eq_of_same (same.field "expression" rfl rfl)
          rw [quoteNumbers, quoteNumbers, values]

end Stmt

end Covenant
