import Covenant.Proofs.Json.Trees
import Covenant.Proofs.Lists
import Covenant.Proofs.Outline.Labels
import Covenant.Stmt.Outline
import Mathlib

/-! Trees of expressions and statements. The first word of a label names the form of its node, so
that different expressions have different trees, and so have different statements. -/

namespace Covenant

/-- The text in front of the first space. -/
def firstWord (label : String) : List Char :=
  label.toList.takeWhile (· != ' ')

theorem BinaryOp.label_inj {op op' : BinaryOp}
    (same : op.label ++ " " ++ op.symbol.spelling = op'.label ++ " " ++ op'.symbol.spelling) :
    op = op' := by
  have texts := congrArg String.toList same
  have free (op : BinaryOp) : ' ' ∉ op.label.toList := by
    cases op <;> decide
  simp only [String.toList_append, List.append_assoc] at texts
  obtain ⟨_, spellings⟩ := append_cons_inj_of_not_mem (free op) (free op') texts
  exact spelling_inj (String.toList_inj.1 spellings)

namespace Literal

theorem label_number (digits : String) : (number digits).label = "number " ++ digits := rfl

theorem label_string (value : String) :
    (string value).label = "string " ++ Text.quoted value := rfl

theorem label_bool (value : Bool) : (bool value).label = "bool " ++ toString value := rfl

theorem label_inj {value value' : Literal} (same : value.label = value'.label) :
    value = value' := by
  have words := congrArg firstWord same
  cases value with
  | number digits =>
      cases value' with
      | number digits' => exact congrArg number ((String.append_right_inj _).1 same)
      | string | bool => simp [label_number, label_string, label_bool, firstWord] at words
  | string text =>
      cases value' with
      | string text' => exact congrArg string (Text.quoted_inj ((String.append_right_inj _).1 same))
      | number | bool => simp [label_number, label_string, label_bool, firstWord] at words
  | bool flag =>
      cases value' with
      | bool flag' =>
          have toString_inj : ∀ flag flag' : Bool,
              toString flag = toString flag' → flag = flag' := by
            decide
          exact congrArg bool (toString_inj _ _ ((String.append_right_inj _).1 same))
      | number | string => simp [label_number, label_string, label_bool, firstWord] at words

end Literal

namespace Expr

def label : Expr → String
  | literal _ value => value.label
  | ident _ name => "ident " ++ name
  | unary _ op _ => "unary " ++ op.symbol.spelling
  | binary _ op _ _ => op.label ++ " " ++ op.symbol.spelling
  | ternary _ _ _ _ => "ternary"
  | member _ _ name => "member ." ++ name
  | index _ _ _ => "index"
  | call _ _ _ => "call"
  | tuple _ _ => "tuple"
  | array _ _ => "array"
  | object _ _ => "object"

def propertyOutline (property : String × Expr) : Outline :=
  .node ("property " ++ property.1) [property.2.outline]

def branches : Expr → List Outline
  | object _ properties => properties.map propertyOutline
  | expr => expr.parts.map outline

theorem outline_eq (expr : Expr) :
    expr.outline = .node (labelAt expr.pos expr.label) expr.branches := by
  cases expr with
  | object => exact congrArg _ (propertiesOnto_eq ..)
  | call | tuple | array => exact congrArg _ (outlinesOnto_eq ..)
  | literal | ident | unary | binary | ternary | member | index => rfl

def words : List (List Char × Form) :=
  [("number".toList, .literal), ("string".toList, .literal), ("bool".toList, .literal),
    ("ident".toList, .identifier), ("unary".toList, .unary), ("binary".toList, .arithmetic),
    ("bitwise".toList, .arithmetic), ("logical".toList, .arithmetic),
    ("ternary".toList, .ternary), ("member".toList, .member), ("index".toList, .index),
    ("call".toList, .call), ("tuple".toList, .tuple), ("array".toList, .array),
    ("object".toList, .object)]

theorem lookup_firstWord (expr : Expr) : words.lookup (firstWord expr.label) = some expr.shape := by
  cases expr with
  | literal pos value =>
      cases value <;>
        simp [label, Literal.label_number, Literal.label_string, Literal.label_bool, firstWord,
          words, shape, form, List.lookup]
  | binary pos op left right =>
      cases op <;>
        simp [label, BinaryOp.label, BinaryOp.level, firstWord, words, shape, List.lookup]
  | ident | unary | member | ternary | index | call | tuple | array | object =>
      simp [label, firstWord, words, shape, form, List.lookup]

theorem paired_of_outline {left right : Expr} (same : left.outline = right.outline) :
    Paired left right ∧ left.label = right.label ∧ left.branches = right.branches := by
  rw [outline_eq, outline_eq] at same
  obtain ⟨labels, branches⟩ := Outline.node.inj same
  obtain ⟨places, labels⟩ := labelAt_inj labels
  have forms := left.lookup_firstWord
  rw [labels, right.lookup_firstWord] at forms
  exact ⟨paired_of_shape (Option.some.inj forms).symm places, labels, branches⟩

theorem outline_inj {left right : Expr} (same : left.outline = right.outline) : left = right := by
  induction left using parts_induction generalizing right with
  | step left induction =>
      obtain ⟨paired, labels, branches⟩ := paired_of_outline same
      have all {others : List Expr} (same : left.parts.map outline = others.map outline) :
          left.parts = others :=
        eq_of_map_eq (fun part member other same => induction part member same) same
      cases paired with
      | literal => rw [Literal.label_inj labels]
      | ident => rw [(String.append_right_inj _).1 labels]
      | unary =>
          cases UnaryOp.spelling_inj ((String.append_right_inj _).1 labels)
          cases all branches
          rfl
      | binary =>
          cases BinaryOp.label_inj labels
          cases all branches
          rfl
      | member =>
          cases (String.append_right_inj _).1 labels
          cases all branches
          rfl
      | ternary | index | call | tuple | array =>
          cases all branches
          rfl
      | object =>
          refine congrArg _ (eq_of_map_eq (fun property member other same => ?_) branches)
          obtain ⟨labels, values⟩ := Outline.node.inj same
          have values := induction _ (List.mem_map_of_mem member) (List.cons.inj values).1
          exact Prod.ext ((String.append_right_inj _).1 labels) values

end Expr

theorem Assignment.eq_of_outlines {left right : Assignment}
    (same : [left.target.outline, left.value.outline] =
      [right.target.outline, right.value.outline]) : left = right := by
  obtain ⟨targets, rest⟩ := List.cons.inj same
  have values := Expr.outline_inj (List.cons.inj rest).1
  exact congrArg₂ Assignment.mk (Expr.outline_inj targets) values

namespace Stmt

open Covenant.Expr (labelAt labelAt_inj)

def word : Stmt → String
  | assign _ _ => "assign"
  | if_ _ _ _ _ => "if"
  | while_ _ _ _ => "while"
  | for_ _ _ _ _ _ _ => "for"
  | break_ _ => "break"
  | continue_ _ => "continue"
  | return_ _ _ => "return"
  | expr _ _ => "expr"

def branches : Stmt → List Outline
  | assign _ assignment => [assignment.target.outline, assignment.value.outline]
  | if_ _ condition yes no =>
      condition.outline :: .node "then" (yes.map outline) ::
        no.toList.map fun body => .node "else" (body.map outline)
  | while_ _ condition body => [condition.outline, .node "do" (body.map outline)]
  | for_ _ counter start bound increment body =>
      [assignOutline counter.pos ⟨counterExpr counter, start⟩, bound.outline,
        assignOutline increment.target.pos increment, .node "do" (body.map outline)]
  | break_ _ | continue_ _ => []
  | return_ _ value => value.toList.map Expr.outline
  | expr _ value => [value.outline]

theorem outline_eq (stmt : Stmt) :
    stmt.outline = .node (labelAt stmt.pos stmt.word) stmt.branches := by
  cases stmt with
  | if_ pos condition yes no =>
      cases no <;> simp [outline, branches, word, Stmt.pos]
  | while_ | for_ => simp [outline, branches, word, pos]
  | assign | break_ | continue_ | return_ | expr => rfl

def words : List (String × String) :=
  [("assign", "VariableAssignment"), ("if", "IfStatement"), ("while", "WhileStatement"),
    ("for", "ForStatement"), ("break", "BreakStatement"), ("continue", "ContinueStatement"),
    ("return", "ReturnStatement"), ("expr", "ExpressionStatement")]

theorem lookup_word (stmt : Stmt) : words.lookup stmt.word = some stmt.form := by
  cases stmt <;> simp [words, word, form, List.lookup]

theorem counterExpr_inj {left right : Ident} (same : counterExpr left = counterExpr right) :
    left = right := by
  obtain ⟨places, names⟩ := Expr.ident.inj same
  exact congrArg₂ Ident.mk names places

theorem paired_of_outline {left right : Stmt} (same : left.outline = right.outline) :
    Paired left right ∧ left.branches = right.branches := by
  rw [outline_eq, outline_eq] at same
  obtain ⟨labels, branches⟩ := Outline.node.inj same
  obtain ⟨places, words⟩ := labelAt_inj labels
  have forms := left.lookup_word
  rw [words, right.lookup_word] at forms
  exact ⟨paired_of_form (Option.some.inj forms).symm places, branches⟩

theorem outline_inj {left right : Stmt} (same : left.outline = right.outline) : left = right := by
  induction left using parts_induction generalizing right with
  | step left induction =>
      obtain ⟨paired, branches⟩ := paired_of_outline same
      have all {stmts others : List Stmt} (inside : stmts ⊆ left.parts)
          (same : stmts.map outline = others.map outline) : stmts = others :=
        eq_of_map_eq (fun stmt member other same => induction stmt (inside member) same) same
      cases paired with
      | assign => rw [Assignment.eq_of_outlines branches]
      | if_ =>
          obtain ⟨conditions, rest⟩ := List.cons.inj branches
          obtain ⟨yes, no⟩ := List.cons.inj rest
          have conditions := Expr.outline_inj conditions
          have yes := all (by simp [parts]) (Outline.node.inj yes).2
          have no := option_eq_of_map_toList_eq (fun body isBody other same => ?_) no
          · rw [conditions, yes, no]
          · exact all (by simp [parts, Option.mem_def.1 isBody]) (Outline.node.inj same).2
      | while_ =>
          obtain ⟨conditions, rest⟩ := List.cons.inj branches
          have bodies := all (by simp [parts]) (Outline.node.inj (List.cons.inj rest).1).2
          rw [Expr.outline_inj conditions, bodies]
      | for_ =>
          obtain ⟨starts, rest⟩ := List.cons.inj branches
          obtain ⟨bounds, rest⟩ := List.cons.inj rest
          obtain ⟨increments, rest⟩ := List.cons.inj rest
          have bodies := all (by simp [parts]) (Outline.node.inj (List.cons.inj rest).1).2
          have increments := Assignment.eq_of_outlines (Outline.node.inj increments).2
          have starts := Assignment.eq_of_outlines (Outline.node.inj starts).2
          have counters := counterExpr_inj (congrArg Assignment.target starts)
          have starts := congrArg Assignment.value starts
          dsimp only at starts
          rw [counters, starts, Expr.outline_inj bounds, increments, bodies]
      | break_ | continue_ => rfl
      | return_ =>
          rw [option_eq_of_map_toList_eq (fun _ _ _ same => Expr.outline_inj same) branches]
      | expr => rw [Expr.outline_inj (List.cons.inj branches).1]

end Stmt

end Covenant
