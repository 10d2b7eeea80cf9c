import Covenant.Proofs.Outline.Trees
import Covenant.Proofs.Program.Signatures
import Covenant.Program.Outline
import Mathlib

/-! The trees of what has been read are plain: names, numbers and types hold no line feed, and
strings are quoted. -/

namespace Covenant

open Token (Shape Spells)

theorem Token.Spells.oneLine {kind : Token.Kind} {text : List Char} (spells : Spells kind text)
    (notString : ∀ escaped, kind ≠ .string escaped) : '\n' ∉ text := by
  intro member
  cases spells with
  | word starts others =>
      rcases List.mem_cons.1 member with rfl | inside
      · exact absurd starts (by decide)
      · exact absurd (others _ inside) (by decide)
  | symbol sign =>
      revert member
      cases sign <;> decide
  | integer _ digits => exact absurd (digits _ member) (by decide)
  | decimal _ whole _ fraction =>
      simp only [List.mem_append, List.mem_cons] at member
      rcases member with inside | point | inside
      · exact absurd (whole _ inside) (by decide)
      · exact absurd point (by decide)
      · exact absurd (fraction _ inside) (by decide)
  | literal => exact notString _ rfl

theorem Token.Shape.Spelled.oneLine_name {name : String} (spelled : (Shape.name name).Spelled) :
    '\n' ∉ name.toList :=
  Spells.oneLine spelled (by simp [Shape.name])

theorem Outline.IsLabel.labelAt {label : String} (isLabel : IsLabel label) (pos : Position) :
    IsLabel (Expr.labelAt pos label) := by
  have place : '\n' ∉ (" (" ++ pos.render ++ ")").toList := by
    have free : '\n' ∉ pos.render.toList := pos.not_mem_render (by decide) (by decide)
    simp [free]
  have text : Expr.labelAt pos label = label ++ (" (" ++ pos.render ++ ")") := by
    simp [← String.toList_inj, Expr.toList_labelAt]
  rw [text]
  exact isLabel.append place

namespace Expr

open Outline (IsLabel Plain)

theorem isLabel_label {expr : Expr} (writable : Shape.Writable expr.shapes) :
    IsLabel expr.label := by
  cases expr with
  | literal pos value =>
      rw [shapes, Shape.writable_cons] at writable
      cases value with
      | number digits =>
          have digits : '\n' ∉ digits.toList :=
            Spells.oneLine writable.1 (by simp [Literal.shape, Shape.number])
          exact .append (show IsLabel "number " by decide) digits
      | string value =>
          exact .append (show IsLabel "string " by decide) (Text.oneLine_quoted value)
      | bool value =>
          change IsLabel (Literal.bool value).label
          cases value <;> decide
  | ident pos name =>
      rw [shapes, Shape.writable_cons] at writable
      exact IsLabel.append (by decide) writable.1.oneLine_name
  | member pos base name =>
      rw [shapes, Shape.writable_append, Shape.writable_cons, Shape.writable_cons] at writable
      exact IsLabel.append (by decide) writable.2.2.1.oneLine_name
  | unary pos op operand =>
      change IsLabel ("unary " ++ op.symbol.spelling)
      cases op <;> decide
  | binary pos op left right =>
      change IsLabel (op.label ++ " " ++ op.symbol.spelling)
      cases op <;> decide
  | ternary | index | call | tuple | array | object =>
      rw [label]
      decide

theorem writable_of_grouped {least : Nat} {expr : Expr} {shapes : List Shape}
    (writable : Shape.Writable (expr.grouped least shapes)) : Shape.Writable shapes := by
  rw [grouped] at writable
  split at writable
  · simpa using writable
  · exact writable

theorem writable_part {expr part : Expr} (writable : Shape.Writable expr.shapes)
    (member : part ∈ expr.parts) : Shape.Writable part.shapes := by
  cases expr with
  | literal | ident => cases member
  | unary pos op operand =>
      rw [shapes, Shape.writable_cons] at writable
      obtain rfl := List.mem_singleton.1 member
      exact writable_of_grouped writable.2
  | binary pos op left right =>
      rw [shapes, Shape.writable_append, Shape.writable_cons] at writable
      simp only [parts, List.mem_cons, List.not_mem_nil, or_false] at member
      rcases member with rfl | rfl
      · exact writable_of_grouped writable.1
      · exact writable_of_grouped writable.2.2
  | ternary pos condition yes no =>
      simp only [shapes, Shape.writable_append, Shape.writable_cons] at writable
      simp only [parts, List.mem_cons, List.not_mem_nil, or_false] at member
      rcases member with rfl | rfl | rfl
      · exact writable_of_grouped writable.1.1
      · exact writable.1.2.2
      · exact writable.2.2
  | member pos base name =>
      rw [shapes, Shape.writable_append] at writable
      obtain rfl := List.mem_singleton.1 member
      exact writable.1
  | index pos base key =>
      simp only [shapes, Shape.writable_append, Shape.writable_cons] at writable
      simp only [parts, List.mem_cons, List.not_mem_nil, or_false] at member
      rcases member with rfl | rfl
      · exact writable.1.1
      · exact writable.1.2.2
  | call pos callee arguments =>
      simp only [shapes, Shape.writable_append, Shape.writable_cons, shapesEach_eq,
        Shape.writable_commaSeparated, List.forall_mem_map] at writable
      rcases List.mem_cons.1 member with rfl | inside
      · exact writable.1.1
      · exact writable.1.2.2 part inside
  | tuple pos elements =>
      simp only [shapes, shapesEach_eq, writable_tupleShapes, List.forall_mem_map] at writable
      exact writable part member
  | array pos elements =>
      simp only [shapes, Shape.writable_append, Shape.writable_cons, shapesEach_eq,
        Shape.writable_commaSeparated, List.forall_mem_map] at writable
      exact writable.1.2 part member
  | object pos properties =>
      simp only [shapes, Shape.writable_append, Shape.writable_cons, propertyShapesEach_eq,
        Shape.writable_commaSeparated, List.forall_mem_map] at writable
      obtain ⟨property, inside, rfl⟩ := List.mem_map.1 member
      exact (writable.1.2 property inside).2.2

theorem plain_outline {expr : Expr} (writable : Shape.Writable expr.shapes) :
    Plain [expr.outline] := by
  induction expr using parts_induction with
  | step expr induction =>
      have parts : ∀ part ∈ expr.parts, Plain [part.outline] :=
        fun part member => induction part member (writable_part writable member)
      rw [outline_eq]
      refine .cons ((isLabel_label writable).labelAt _) ?_ .nil
      cases expr with
      | object pos properties =>
          refine Plain.map fun property member => ?_
          simp only [shapes, Shape.writable_append, Shape.writable_cons, propertyShapesEach_eq,
            Shape.writable_commaSeparated, List.forall_mem_map] at writable
          have key := (writable.1.2 property member).1.oneLine_name
          refine .cons (IsLabel.append (by decide) key) ?_ .nil
          exact parts _ (List.mem_map_of_mem member)
      | literal | ident | unary | binary | ternary | member | index | call | tuple | array =>
          exact Plain.map parts

end Expr

namespace Stmt

open Outline (IsLabel Plain)

theorem isLabel_word (stmt : Stmt) : IsLabel stmt.word := by
  cases stmt <;> rw [word] <;> decide

theorem plain_outline {stmt : Stmt} (branches : Plain stmt.branches) : Plain [stmt.outline] := by
  rw [outline_eq]
  exact .cons (stmt.isLabel_word.labelAt _) branches .nil

theorem plain_assignOutline {pos : Position} {assignment : Assignment}
    (target : Shape.Writable assignment.target.shapes)
    (value : Shape.Writable assignment.value.shapes) :
    Plain [assignOutline pos assignment] := by
  have operands := (Expr.plain_outline target).append (Expr.plain_outline value)
  exact .cons (IsLabel.labelAt (by decide) pos) operands .nil

theorem plain_block {word : String} {body : List Stmt} (isLabel : IsLabel word)
    (plain : ∀ stmt ∈ body, Plain [stmt.outline]) :
    Plain [.node word (body.map outline)] :=
  .cons isLabel (.map plain) .nil

theorem plain_of_simple {tokens : List Token} {stmt : Stmt} (simple : Simple tokens stmt)
    (writable : Shape.Writable stmt.shapes) : Plain [stmt.outline] := by
  refine plain_outline ?_
  cases simple with
  | break_ | continue_ | return_ => exact .nil
  | returnValue | expr =>
      simp only [shapes, Shape.writable_append, Shape.writable_cons] at writable
      exact Expr.plain_outline (by simp [writable])
  | assign =>
      simp only [shapes, Shape.writable_append, Shape.writable_cons] at writable
      obtain ⟨⟨target, _, value⟩, _⟩ := writable
      exact (Expr.plain_outline target).append (Expr.plain_outline value)

theorem plain_for {pos : Position} {counter : Ident} {start bound step : Expr} {body : List Stmt}
    (isName : (Shape.name counter.name).Spelled) (inStart : Shape.Writable start.shapes)
    (inBound : Shape.Writable bound.shapes) (inStep : Shape.Writable step.shapes)
    (plain : ∀ stmt ∈ body, Plain [stmt.outline]) :
    Plain [(for_ pos counter start bound (countBy counter step) body).outline] := by
  have counted : Shape.Writable (counterExpr counter).shapes := by
    simpa [counterExpr, Expr.shapes] using isName
  have added : Shape.Writable (countBy counter step).value.shapes := by
    simp [countBy, Expr.shapes, Expr.writable_grouped _ counted, Expr.writable_grouped _ inStep]
  have first : Plain [assignOutline counter.pos ⟨counterExpr counter, start⟩] :=
    plain_assignOutline counted inStart
  have increment : Plain [assignOutline counter.pos (countBy counter step)] :=
    plain_assignOutline counted added
  have body := plain_block (show IsLabel "do" by decide) plain
  refine plain_outline ?_
  rw [branches]
  exact first.append ((Expr.plain_outline inBound).append (increment.append body))

/-- The shapes of a loop do not show its increment as a whole, so that they cannot be all that is
looked at here. -/
theorem plain_of_derives {phrase : Phrase} {tokens : List Token} {stmts : List Stmt}
    (derives : Derives phrase tokens stmts) (writable : Shape.Writable (tokens.map Token.shape)) :
    ∀ stmt ∈ stmts, Plain [stmt.outline] := by
  induction derives with
  | block _ _ _ induction =>
      simp only [List.map_append, List.map_cons, Shape.writable_append, Shape.writable_cons]
        at writable
      exact induction writable.2.1
  | nil => simp
  | cons _ _ first rest =>
      simp only [List.map_append, Shape.writable_append] at writable
      exact List.forall_mem_cons.2 ⟨first writable.1 _ (by simp), rest writable.2⟩
  | simple simple =>
      simp only [List.map_append, Shape.writable_append] at writable
      simpa using plain_of_simple simple (simple.writable writable.1)
  | while_ _ test _ _ induction =>
      simp only [List.map_append, List.map_cons, Shape.writable_append, Shape.writable_cons]
        at writable
      obtain ⟨_, inTest, inBody, _⟩ := writable
      have test := Expr.plain_outline (Expr.writable_of_derives test inTest)
      have body := plain_block (show IsLabel "do" by decide) (induction inBody)
      simpa using plain_outline (show Plain (branches (.while_ ..)) from test.append body)
  | @for_ word counter _ _ _ _ _ _ _ _ _ _ _ isCounter _ start isBound stop step _ induction =>
      simp only [List.map_append, List.map_cons, Shape.writable_append, Shape.writable_cons,
        Token.shape_of_identifier isCounter] at writable
      obtain ⟨_, isName, _, inStart, _, inStop, inStep, inBody⟩ := writable
      have step := (Shape.writable_cons.1 (step.writable inStep)).2
      have loop := @plain_for word.pos counter.ident _ _ _ _ isName
        (Expr.writable_of_derives start inStart) (Expr.writable_of_derives stop inStop) step
        (induction inBody)
      simpa using loop
  | branch _ induction => exact induction writable
  | if_ _ test _ induction =>
      simp only [List.map_append, List.map_cons, Shape.writable_append, Shape.writable_cons]
        at writable
      obtain ⟨_, inTest, inYes⟩ := writable
      have test := Expr.plain_outline (Expr.writable_of_derives test inTest)
      have yes := plain_block (show IsLabel "then" by decide) (induction inYes)
      simpa using plain_outline (show Plain (branches (.if_ _ _ _ none)) from test.append yes)
  | ifElse _ test _ _ _ _ yes no =>
      simp only [List.map_append, List.map_cons, Shape.writable_append, Shape.writable_cons]
        at writable
      obtain ⟨_, inTest, inYes, _, inNo⟩ := writable
      have test := Expr.plain_outline (Expr.writable_of_derives test inTest)
      have yes := plain_block (show IsLabel "then" by decide) (yes inYes)
      have no := plain_block (show IsLabel "else" by decide) (no inNo)
      have all := test.append (yes.append no)
      simpa using plain_outline (show Plain (branches (.if_ _ _ _ (some _))) from all)

end Stmt

/-! Declarations. -/

open Outline (IsLabel Plain)

theorem oneLine_intercalate {separator : String} {texts : List String}
    (between : '\n' ∉ separator.toList) (each : ∀ text ∈ texts, '\n' ∉ text.toList) :
    '\n' ∉ (String.intercalate separator texts).toList := by
  induction texts with
  | nil => simp
  | cons text texts induction =>
      obtain ⟨first, others⟩ := List.forall_mem_cons.1 each
      cases texts with
      | nil => simpa using first
      | cons next texts => simpa [between, first] using induction others

theorem TypeName.oneLine_render {type : TypeName} (writable : Shape.Writable type.shapes) :
    '\n' ∉ type.render.toList := by
  induction type with
  | named name =>
      rw [shapes, Shape.writable_cons] at writable
      exact writable.1.oneLine_name
  | array element induction =>
      rw [shapes, Shape.writable_append] at writable
      simp [render, induction writable.1]
  | mapping key value induction =>
      simp only [shapes, Shape.writable_append, Shape.writable_cons] at writable
      obtain ⟨⟨⟨_, _, isKey, _⟩, inner⟩, _⟩ := writable
      simp [toList_render_mapping, isKey.oneLine_name, induction inner]

/-- The text of a name with its type. -/
def Ident.typedText (name : Ident) (type : TypeName) : String :=
  name.name ++ ": " ++ type.render

theorem Ident.oneLine_typedText {name : Ident} {type : TypeName}
    (writable : Shape.Writable (name.typedShapes type)) : '\n' ∉ (name.typedText type).toList := by
  simp only [typedShapes, Shape.writable_cons] at writable
  obtain ⟨isName, _, isType⟩ := writable
  simp [typedText, isName.oneLine_name, TypeName.oneLine_render isType]

namespace StateVar

def locationText (location : Option StorageLocation) : String :=
  location.elim "" fun location => " " ++ location.render

theorem outline_eq (var : StateVar) :
    var.outline = .leaf (Expr.labelAt var.name.pos
      ("state " ++ (var.name.typedText var.type ++ locationText var.location))) := by
  have text : var.outline = .leaf (Expr.labelAt var.name.pos
      ("state " ++ var.name.name ++ ": " ++ var.type.render ++ locationText var.location)) := by
    obtain ⟨name, type, location⟩ := var
    cases location <;> rfl
  simp only [text, Ident.typedText, String.append_assoc]

theorem plain_outline {var : StateVar} (writable : Shape.Writable var.shapes) :
    Plain [var.outline] := by
  simp only [shapes, Shape.writable_append] at writable
  have typed := Ident.oneLine_typedText writable.1.1
  have place : '\n' ∉ (locationText var.location).toList := by
    rcases var.location with _ | _ | _ <;> decide
  rw [outline_eq]
  refine .cons (.labelAt (IsLabel.append (by decide) ?_) _) .nil .nil
  simp [typed, place]

end StateVar

namespace Field

theorem outline_eq (field : Field) :
    field.outline = .leaf ("field " ++ field.name.typedText field.type) := by
  have text : field.outline =
      .leaf ("field " ++ field.name.name ++ ": " ++ field.type.render) := rfl
  simp only [text, Ident.typedText, String.append_assoc]

theorem plain_outline {field : Field} (writable : Shape.Writable field.shapes) :
    Plain [field.outline] := by
  rw [shapes, Shape.writable_append] at writable
  rw [outline_eq]
  exact .cons (IsLabel.append (by decide) (Ident.oneLine_typedText writable.1)) .nil .nil

end Field

theorem Struct.plain_outline {struct : Struct} (writable : Shape.Writable struct.shapes) :
    Plain [struct.outline] := by
  simp only [shapes, Stmt.braced, Shape.writable_cons, Shape.writable_append,
    Shape.writable_flatMap] at writable
  obtain ⟨_, isName, ⟨_, fields⟩, _⟩ := writable
  refine .cons (.labelAt ?_ _) (.map fun field member => ?_) .nil
  · exact .append (show IsLabel "struct " by decide) isName.oneLine_name
  · exact field.plain_outline (fields field member)

namespace Function

/-- The word in front of the parameters. -/
def headText (function : Function) : String :=
  if function.isConstructor then "constructor" else "function " ++ function.name.name

def parameterText (parameters : List Parameter) : String :=
  String.intercalate ", " (parameters.map fun parameter => parameter.name.typedText parameter.type)

def returnText (returns : Option ReturnType) : String :=
  returns.elim "" fun type => " -> " ++ type.render

theorem label_eq (function : Function) :
    function.label = function.headText ++ "(" ++ parameterText function.parameters ++ ")" ++
      modifierLabel function.modifiers ++ returnText function.returns := by
  obtain ⟨name, parameters, returns, modifiers, body⟩ := function
  cases returns <;> rfl

theorem oneLine_returnText {returns : Option ReturnType}
    (writable : Shape.Writable (returns.elim [] ReturnType.shapes)) :
    '\n' ∉ (returnText returns).toList := by
  rcases returns with _ | ⟨name⟩ | ⟨names⟩
  · decide
  · simp only [Option.elim, ReturnType.shapes, Shape.writable_cons] at writable
    simp [returnText, ReturnType.render, writable.2.1.oneLine_name]
  · simp only [Option.elim, ReturnType.shapes, Shape.writable_append, Shape.writable_cons,
      Shape.writable_commaSeparated, List.forall_mem_map] at writable
    have each := oneLine_intercalate (show '\n' ∉ ",".toList by decide) fun name member =>
      (writable.1.2.2 name member).1.oneLine_name
    simp only [returnText, Option.elim, ReturnType.render, String.toList_append, List.mem_append,
      each, not_or]
    decide

/-- The defaults that are given, each with the name of its parameter. -/
def defaults (parameters : List Parameter) : List (String × Expr) :=
  parameters.filterMap fun parameter =>
    parameter.default.map fun value => (parameter.name.name, value)

def defaultOutline (given : String × Expr) : Outline :=
  .node ("default " ++ given.1) [given.2.outline]

theorem defaultOutlines_eq (parameters : List Parameter) :
    defaultOutlines parameters = (defaults parameters).map defaultOutline := by
  rw [defaultOutlines, defaults, List.map_filterMap]
  simp only [Option.map_map]
  rfl

theorem plain_defaults {parameters : List Parameter}
    (writable : ∀ parameter ∈ parameters, Shape.Writable parameter.shapes) :
    Plain (defaultOutlines parameters) := by
  rw [defaultOutlines_eq]
  refine .map fun given member => ?_
  obtain ⟨parameter, isParameter, isGiven⟩ := List.mem_filterMap.1 member
  obtain ⟨value, isDefault, rfl⟩ := Option.map_eq_some_iff.1 isGiven
  have written := writable parameter isParameter
  simp only [Parameter.shapes, Ident.typedShapes, isDefault, Shape.writable_append,
    Shape.writable_cons] at written
  obtain ⟨⟨isName, _⟩, _, value⟩ := written
  exact .cons (.append (by decide) isName.oneLine_name) (Expr.plain_outline value) .nil

theorem plain_outline {function : Function} (writable : Shape.Writable function.shapes)
    (body : ∀ stmt ∈ function.body, Plain [stmt.outline]) : Plain [function.outline] := by
  simp only [Parser.shapes_function, Shape.writable_append, Shape.writable_cons,
    Shape.writable_commaSeparated, List.forall_mem_map] at writable
  obtain ⟨_, isName, _, parameters, _, _, returns, _⟩ := writable
  have typed : ∀ parameter ∈ function.parameters,
      Shape.Writable (parameter.name.typedShapes parameter.type) := fun parameter member =>
    (Shape.writable_append.1 (parameters parameter member)).1
  have isLabel : IsLabel function.label := by
    have head : IsLabel (function.headText) := by
      rw [headText]
      split
      · decide
      · exact .append (by decide) isName.oneLine_name
    have parameters : '\n' ∉ (parameterText function.parameters).toList := by
      refine oneLine_intercalate (by decide) (List.forall_mem_map.2 fun parameter member => ?_)
      exact Ident.oneLine_typedText (typed parameter member)
    have modifiers : '\n' ∉ (modifierLabel function.modifiers).toList := by
      obtain ⟨payable, view, pure, onlyOwner⟩ := function.modifiers
      cases payable <;> cases view <;> cases pure <;> cases onlyOwner <;> decide
    rw [label_eq]
    exact ((((head.append (by decide)).append parameters).append (by decide)).append
      modifiers).append (oneLine_returnText returns)
  exact .cons (isLabel.labelAt _) ((plain_defaults parameters).append (.map body)) .nil

end Function

/-! What has been read. -/

/-- Something that derives from tokens with texts of their own. -/
def FromTokens {α : Type} (Derives : List Token → α → Prop) (value : α) : Prop :=
  ∃ tokens, Derives tokens value ∧ Shape.Writable (tokens.map Token.shape)

namespace FromTokens

variable {contract : Contract} (written : FromTokens Contract.Derives contract)

include written

theorem member {member : Parser.Member} (isMember : member ∈ Parser.Member.all contract) :
    FromTokens Parser.Member.Derives member := by
  obtain ⟨tokens, derives, writable⟩ := written
  obtain @⟨_, _, _, _, _, _, _, _, _, _, _, members, _⟩ := derives
  simp only [List.map_cons, List.map_append, Shape.writable_cons, Shape.writable_append] at writable
  obtain ⟨part, derives, within⟩ := Parser.Member.exists_of_mem_all members isMember
  exact ⟨part, derives, writable.2.2.2.1.of_subset (List.map_subset _ within)⟩

theorem stateVar {var : StateVar} (isVar : var ∈ contract.stateVars) :
    FromTokens StateVar.Derives var := by
  obtain ⟨tokens, derives, writable⟩ := written.member
    (show .stateVar var ∈ _ by simp [Parser.Member.all, isVar])
  cases derives with
  | stateVar derives => exact ⟨tokens, derives, writable⟩

theorem struct {struct : Struct} (isStruct : struct ∈ contract.structs) :
    FromTokens Struct.Derives struct := by
  obtain ⟨tokens, derives, writable⟩ := written.member
    (show .struct struct ∈ _ by simp [Parser.Member.all, isStruct])
  cases derives with
  | struct derives => exact ⟨tokens, derives, writable⟩

theorem function {function : Function} (isFunction : function ∈ contract.functions) :
    FromTokens Function.Derives function := by
  obtain ⟨tokens, derives, writable⟩ := written.member
    (show .function function ∈ _ by simp [Parser.Member.all, isFunction])
  cases derives with
  | function derives => exact ⟨tokens, derives, writable⟩

end FromTokens

theorem Function.plain_of_fromTokens {function : Function}
    (written : FromTokens Function.Derives function) : Plain [function.outline] := by
  obtain ⟨tokens, derives, writable⟩ := written
  refine function.plain_outline (derives.writable writable) ?_
  obtain @⟨_, _, _, _, _, _, _, _, _, _, _, _, _, _, _, _, _, _, _, body⟩ := derives
  simp only [List.map_cons, List.map_append, Shape.writable_cons, Shape.writable_append] at writable
  exact Stmt.plain_of_derives body writable.2.2.2.2.2.2.2

theorem Contract.plain_of_fromTokens {contract : Contract}
    (written : FromTokens Contract.Derives contract) : Plain [contract.outline] := by
  have isLabel : IsLabel ("contract " ++ contract.name.name) := by
    obtain ⟨_, derives, writable⟩ := written
    have shown := derives.writable writable
    rw [Parser.shapes_contract, Shape.writable_cons, Shape.writable_cons] at shown
    exact .append (by decide) shown.2.1.oneLine_name
  refine .cons (isLabel.labelAt _) (.append (.append (.map fun var isVar => ?_)
    (.map fun struct isStruct => ?_)) (.map fun function isFunction => ?_)) .nil
  · obtain ⟨_, derives, writable⟩ := written.stateVar isVar
    exact var.plain_outline (derives.writable writable)
  · obtain ⟨_, derives, writable⟩ := written.struct isStruct
    exact struct.plain_outline (derives.writable writable)
  · exact function.plain_of_fromTokens (written.function isFunction)

theorem Expr.fromTokens_of_parse {limits : Limits} {source : String} {expr : Expr}
    (parsed : parse limits source = .ok expr) : FromTokens (Derives .expr) expr := by
  obtain ⟨_, tokens, lexed, after, ran⟩ := Parser.runSource_eq_ok_iff.1 parsed
  obtain ⟨value, between, read, remaining⟩ := Parser.bind_eq_ok_iff.1 ran
  obtain ⟨_, _, _, returned⟩ := Parser.bind_eq_ok_iff.1 remaining
  cases returned
  obtain ⟨passed, split, passing, derives⟩ :=
    Parser.reads_exprWithin limits.depth limits.depth read
  refine ⟨passed, derives, List.forall_mem_map.2 fun token member => ?_⟩
  have among : token ∈ tokens := by
    rw [show tokens = passed ++ between.rest from split]
    exact List.mem_append_left _ member
  exact Token.spelled_of_lex lexed token among (passing token member)

theorem Program.fromTokens_of_parse {limits : Limits} {source : String} {program : Program}
    (parsed : parse limits source = .ok program) :
    ∀ contract ∈ program.contracts, FromTokens Contract.Derives contract := by
  obtain ⟨_, stream, lexed, after, ran⟩ := Parser.runSource_eq_ok_iff.1 parsed
  obtain ⟨written, last, rfl, going⟩ := Token.lex_eq_ok lexed
  obtain ⟨repeated, _⟩ := Parser.derives_of_program going rfl ran
  intro contract member
  obtain ⟨part, derives, within⟩ := repeated.exists_of_mem member
  exact ⟨part, derives, (Token.writable_of_lex lexed).of_subset (List.map_subset _ within)⟩

end Covenant
