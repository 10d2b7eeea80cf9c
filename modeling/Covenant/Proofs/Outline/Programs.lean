import Covenant.Proofs.Outline.Plain
import Mathlib

/-! What the tree of a program shows: everything but the places of fields and parameters, and which
of several parameters of one name has a default. The label of a declaration is a text of its tokens,
so that the declaration can be read from it. -/

namespace Covenant

open Token (Shape Renders)

/-! Sorts of nodes side by side. -/

/-- How the label of a tree starts. -/
def Outline.opening : Outline → List Char
  | node label _ => label.toList.take 3

/-! Texts of declarations. -/

theorem Lexeme.separates_colon : Separates ':' :=
  separates_of_not_mem rfl (by decide) (by decide)

theorem Ident.renders_typedText {name : Ident} {type : TypeName}
    (writable : Shape.Writable (name.typedShapes type)) {more : List Char} {shapes : List Shape}
    (ends : ∀ stop ∈ more.head?, Lexeme.Separates stop) (renders : Renders more shapes) :
    Renders ((name.typedText type).toList ++ more) (name.typedShapes type ++ shapes) := by
  simp only [typedShapes, Shape.writable_cons] at writable
  obtain ⟨isName, _, isType⟩ := writable
  have typed : Renders (':' :: ' ' :: _) (.sign .colon :: _) :=
    .sign rfl (fun _ => rfl) (.blank (by decide) (TypeName.renders_render isType ends renders))
  have named := Renders.token (isName.endsBefore (by simpa using Lexeme.separates_colon)) typed
  simpa [typedText, typedShapes, Shape.name] using named

namespace StateVar

theorem eq_of_shapes {var other : StateVar} (written : FromTokens StateVar.Derives var)
    (writtenToo : FromTokens StateVar.Derives other) (same : var.shapes = other.shapes) :
    var.relocate (fun _ => .start) = other.relocate (fun _ => .start) := by
  obtain ⟨_, derives, _⟩ := written
  obtain ⟨_, derives', _⟩ := writtenToo
  let limit := var.type.mappings + other.type.mappings
  have read := @Parser.stateVar_shapes limit 0 _ [] _ derives (by omega)
  have read' := @Parser.stateVar_shapes limit 0 _ [] _ derives' (by omega)
  rw [same, read'] at read
  exact (EStateM.Result.ok.inj read).1.symm

theorem renders_text {var : StateVar} (writable : Shape.Writable var.shapes) :
    ∃ shapes, var.shapes = shapes ++ [.sign .semicolon] ∧
      Renders (var.name.typedText var.type ++ locationText var.location).toList shapes := by
  simp only [StateVar.shapes, Shape.writable_append] at writable
  obtain ⟨⟨typed, _⟩, _⟩ := writable
  refine ⟨_, rfl, ?_⟩
  rw [String.toList_append]
  have place : Renders (locationText var.location).toList
      (var.location.map fun location => Shape.word location.keyword).toList := by
    cases var.location with
    | none => exact .nil
    | some location =>
        have word := Renders.token ((Shape.spelled_word location.keyword).endsBefore (by simp)) .nil
        have text : (locationText (some location)).toList =
            ' ' :: ((Shape.word location.keyword).text.toList ++ []) := by
          cases location <;> rfl
        rw [text]
        exact .blank (by decide) word
  refine Ident.renders_typedText typed ?_ place
  rcases var.location with _ | _ | _ <;> simp [locationText, Lexeme.separates_space]

theorem outline_inj {var other : StateVar} (written : FromTokens StateVar.Derives var)
    (writtenToo : FromTokens StateVar.Derives other) (same : var.outline = other.outline) :
    var = other := by
  rw [outline_eq, outline_eq] at same
  obtain ⟨places, labels⟩ := Expr.labelAt_inj (Outline.node.inj same).1
  have writable {var : StateVar} (written : FromTokens StateVar.Derives var) :=
    written.elim fun _ both => both.1.writable both.2
  obtain ⟨shapes, isShapes, renders⟩ := renders_text (writable written)
  obtain ⟨shapes', isShapes', renders'⟩ := renders_text (writable writtenToo)
  rw [(String.append_right_inj _).1 labels] at renders
  have sameShapes := renders.unique renders'
  have unplaced := eq_of_shapes written writtenToo (by rw [isShapes, isShapes', sameShapes])
  obtain ⟨⟨name, pos⟩, type, location⟩ := var
  obtain ⟨⟨name', pos'⟩, type', location'⟩ := other
  simp only [relocate, Ident.relocate, StateVar.mk.injEq, Ident.mk.injEq] at unplaced
  simp_all

end StateVar

namespace Field

theorem eq_of_shapes {field other : Field} (written : FromTokens Field.Derives field)
    (writtenToo : FromTokens Field.Derives other) (same : field.shapes = other.shapes) :
    field.relocate (fun _ => .start) = other.relocate (fun _ => .start) := by
  obtain ⟨_, derives, _⟩ := written
  obtain ⟨_, derives', _⟩ := writtenToo
  let limit := field.type.mappings + other.type.mappings
  have read := @Parser.field_shapes limit 0 _ [] _ derives (by omega)
  have read' := @Parser.field_shapes limit 0 _ [] _ derives' (by omega)
  rw [same, read'] at read
  exact (EStateM.Result.ok.inj read).1.symm

theorem renders_text {field : Field} (writable : Shape.Writable field.shapes) :
    Renders (field.name.typedText field.type).toList (field.name.typedShapes field.type) := by
  rw [Field.shapes, Shape.writable_append] at writable
  have renders := Ident.renders_typedText writable.1 (by simp) .nil
  rwa [List.append_nil, List.append_nil] at renders

theorem eq_of_outline {field other : Field} (written : FromTokens Field.Derives field)
    (writtenToo : FromTokens Field.Derives other) (same : field.outline = other.outline) :
    field.relocate (fun _ => .start) = other.relocate (fun _ => .start) := by
  refine eq_of_shapes written writtenToo ?_
  obtain ⟨_, derives, writable⟩ := written
  obtain ⟨_, derives', writable'⟩ := writtenToo
  rw [outline_eq, outline_eq] at same
  have renders := renders_text (derives.writable writable)
  rw [(String.append_right_inj _).1 (Outline.node.inj same).1] at renders
  rw [Field.shapes, Field.shapes, renders.unique (renders_text (derives'.writable writable'))]

end Field

namespace Struct

/-- A structure without the places of its fields. -/
def forgetFieldPlaces (struct : Struct) : Struct :=
  { struct with fields := struct.fields.map (Field.relocate fun _ => .start) }

theorem fromTokens_field {struct : Struct} (written : FromTokens Struct.Derives struct)
    {field : Field} (member : field ∈ struct.fields) : FromTokens Field.Derives field := by
  obtain ⟨_, derives, writable⟩ := written
  obtain @⟨_, _, _, _, _, _, _, _, _, fields, _⟩ := derives
  simp only [List.map_cons, List.map_append, Shape.writable_cons, Shape.writable_append] at writable
  obtain ⟨part, derives, within⟩ := fields.exists_of_mem member
  exact ⟨part, derives, writable.2.2.2.1.of_subset (List.map_subset _ within)⟩

theorem outline_forgetFieldPlaces (struct : Struct) :
    struct.forgetFieldPlaces.outline = struct.outline := by
  rw [outline, outline, forgetFieldPlaces, List.map_map]
  rfl

theorem outline_eq_iff {struct other : Struct} (written : FromTokens Struct.Derives struct)
    (writtenToo : FromTokens Struct.Derives other) :
    struct.outline = other.outline ↔ struct.forgetFieldPlaces = other.forgetFieldPlaces := by
  constructor
  · intro same
    obtain ⟨labels, fields⟩ := Outline.node.inj same
    obtain ⟨places, labels⟩ := Expr.labelAt_inj labels
    have names := (String.append_right_inj "struct ").1 labels
    have fields := map_eq_of_map_eq (fun field member other memberToo =>
      Field.eq_of_outline (fromTokens_field written member)
        (fromTokens_field writtenToo memberToo)) fields
    exact congrArg₂ Struct.mk (congrArg₂ Ident.mk names places) fields
  · intro same
    rw [← outline_forgetFieldPlaces, same, outline_forgetFieldPlaces]

end Struct

/-! Functions. -/

namespace Function

/-- The text of a function from its name on. -/
def signatureText (function : Function) : List Char :=
  function.name.name.toList ++ '(' :: ((parameterText function.parameters).toList ++
    ')' :: ((modifierLabel function.modifiers).toList ++ (returnText function.returns).toList))

theorem toList_label (function : Function) :
    function.label.toList =
      (if function.isConstructor then [] else "function ".toList) ++ function.signatureText := by
  rw [label_eq, headText]
  split
  · next isConstructor =>
      have name : function.name.name = "constructor" := beq_iff_eq.1 isConstructor
      simp [signatureText, name]
  · simp [signatureText]

/-- The tokens of a function from its name to the block. -/
def signatureShapes (function : Function) : List Shape :=
  .name function.name.name :: .sign .lparen ::
    (Shape.commaSeparated
        (function.parameters.map fun parameter => parameter.name.typedShapes parameter.type) ++
      .sign .rparen :: (function.modifiers.shapes ++ function.returns.elim [] ReturnType.shapes))

theorem renders_parameterText {parameters : List Parameter}
    (typed : ∀ parameter ∈ parameters,
      Shape.Writable (parameter.name.typedShapes parameter.type))
    {more : List Char} {shapes : List Shape} (ends : ∀ stop ∈ more.head?, Lexeme.Separates stop)
    (renders : Renders more shapes) :
    Renders ((parameterText parameters).toList ++ more)
      (Shape.commaSeparated
        (parameters.map fun parameter => parameter.name.typedShapes parameter.type) ++ shapes) := by
  induction parameters with
  | nil => simpa [parameterText, Shape.commaSeparated] using renders
  | cons parameter parameters induction =>
      obtain ⟨first, rest⟩ := List.forall_mem_cons.1 typed
      cases parameters with
      | nil =>
          simpa [parameterText, Shape.commaSeparated] using
            Ident.renders_typedText first ends renders
      | cons next parameters =>
          have others : Renders (',' :: ' ' :: _) (.sign .comma :: _) :=
            .sign rfl (fun _ => rfl) (.blank (by decide) (induction rest))
          have all := Ident.renders_typedText first (by simpa using Lexeme.separates_comma) others
          simpa [parameterText, Shape.commaSeparated] using all

theorem toList_modifierLabel (modifiers : Modifiers) :
    (modifierLabel modifiers).toList =
      ([.payable, .view, .pure, .onlyOwner].filter modifiers.has).flatMap fun modifier =>
        ' ' :: modifier.keyword.spelling.toList := by
  obtain ⟨payable, view, pure, onlyOwner⟩ := modifiers
  cases payable <;> cases view <;> cases pure <;> cases onlyOwner <;> decide

theorem renders_words {words : List Modifier} {more : List Char} {shapes : List Shape}
    (ends : ∀ stop ∈ more.head?, Lexeme.Separates stop) (renders : Renders more shapes) :
    Renders ((words.flatMap fun modifier => ' ' :: modifier.keyword.spelling.toList) ++ more)
      ((words.map fun modifier => Shape.word modifier.keyword) ++ shapes) := by
  induction words with
  | nil => exact renders
  | cons modifier words induction =>
      have separated : ∀ stop ∈ ((words.flatMap fun modifier =>
          ' ' :: modifier.keyword.spelling.toList) ++ more).head?, Lexeme.Separates stop := by
        cases words with
        | nil => exact ends
        | cons next words => simpa using Lexeme.separates_space
      have word := Renders.token
        ((Shape.spelled_word modifier.keyword).endsBefore separated) induction
      have spaced : Renders (' ' :: _) _ := .blank (by decide) word
      simpa [Shape.word] using spaced

theorem renders_modifierLabel (modifiers : Modifiers) {more : List Char} {shapes : List Shape}
    (ends : ∀ stop ∈ more.head?, Lexeme.Separates stop) (renders : Renders more shapes) :
    Renders ((modifierLabel modifiers).toList ++ more) (modifiers.shapes ++ shapes) := by
  rw [toList_modifierLabel]
  exact renders_words ends renders

theorem renders_arrow {text : List Char} {shapes : List Shape} (renders : Renders text shapes) :
    Renders (" -> ".toList ++ text) (.sign .arrow :: shapes) := by
  have spaced : " -> ".toList ++ text =
      ' ' :: ((Shape.sign .arrow).text.toList ++ ' ' :: text) := by
    have arrow : " -> ".toList = ' ' :: ("->".toList ++ [' ']) := by decide
    rw [arrow, List.cons_append, List.append_assoc]
    rfl
  rw [spaced]
  refine .blank (by decide) (.token ?_ (.blank (by decide) renders))
  exact (Shape.spelled_sign .arrow).endsBefore (by simpa using Lexeme.separates_space)

theorem renders_names {names : List String} (spelled : ∀ name ∈ names, (Shape.name name).Spelled)
    {more : List Char} {shapes : List Shape} (ends : ∀ stop ∈ more.head?, Lexeme.Separates stop)
    (renders : Renders more shapes) :
    Renders ((String.intercalate "," names).toList ++ more)
      (Shape.commaSeparated (names.map fun name => [.name name]) ++ shapes) := by
  -- Names stand in a list like types that are names.
  have types : ∀ type ∈ names.map TypeName.named, Shape.Writable type.shapes := by
    simpa [TypeName.shapes] using spelled
  have all := TypeName.renders_commaSeparated types ends renders
  simp only [List.map_map, Function.comp_def, TypeName.render, TypeName.shapes, List.map_id'] at all
  exact all

theorem renders_returnText {returns : Option ReturnType}
    (writable : Shape.Writable (returns.elim [] ReturnType.shapes)) :
    Renders (returnText returns).toList (returns.elim [] ReturnType.shapes) := by
  rcases returns with _ | ⟨name⟩ | ⟨names⟩
  · exact .nil
  · simp only [Option.elim, ReturnType.shapes, Shape.writable_cons] at writable
    have named : Renders (name.toList ++ []) [.name name] :=
      .token (writable.2.1.endsBefore (by simp)) .nil
    rw [List.append_nil] at named
    simpa [returnText, ReturnType.render, ReturnType.shapes] using renders_arrow named
  · simp only [Option.elim, ReturnType.shapes, Shape.writable_append, Shape.writable_cons,
      Shape.writable_commaSeparated, List.forall_mem_map] at writable
    have closed : Renders [')'] [.sign .rparen] := .sign rfl (fun _ => rfl) .nil
    have inside := renders_names (fun name member => (writable.1.2.2 name member).1)
      (by simpa using Lexeme.separates_rparen) closed
    have opened : Renders ('(' :: _) (.sign .lparen :: _) := .sign rfl (fun _ => rfl) inside
    simpa [returnText, ReturnType.render, ReturnType.shapes] using renders_arrow opened

theorem renders_signatureText {function : Function} (writable : Shape.Writable function.shapes) :
    Renders function.signatureText function.signatureShapes := by
  simp only [Parser.shapes_function, Shape.writable_append, Shape.writable_cons,
    Shape.writable_commaSeparated, List.forall_mem_map] at writable
  obtain ⟨_, isName, _, parameters, _, _, returns, _⟩ := writable
  have typed : ∀ parameter ∈ function.parameters,
      Shape.Writable (parameter.name.typedShapes parameter.type) := fun parameter member =>
    (Shape.writable_append.1 (parameters parameter member)).1
  have behind : ∀ stop ∈ (returnText function.returns).toList.head?, Lexeme.Separates stop := by
    cases function.returns with
    | none => simp [returnText]
    | some type => simpa [returnText] using Lexeme.separates_space
  have words := renders_modifierLabel function.modifiers behind (renders_returnText returns)
  have closed : Renders (')' :: _) (.sign .rparen :: _) := .sign rfl (fun _ => rfl) words
  have inside := renders_parameterText typed (by simpa using Lexeme.separates_rparen) closed
  have opened : Renders ('(' :: _) (.sign .lparen :: _) := .sign rfl (fun _ => rfl) inside
  exact .token (isName.endsBefore (by simpa using Lexeme.separates_lparen)) opened

/-- A function without its defaults and its body. -/
def head (function : Function) : Function :=
  { function with
    parameters := function.parameters.map fun parameter => { parameter with default := none }
    body := [] }

theorem shapes_head (function : Function) :
    function.head.shapes =
      .word .def_ :: (function.signatureShapes ++ [.sign .lbrace, .sign .rbrace]) := by
  simp [Parser.shapes_function, head, signatureShapes, Function.comp_def, Parameter.shapes]

theorem separated_required {tokens : List Token} {parameters : List Parameter}
    (separated : Separated Parameter.Derives tokens parameters) :
    ∃ tokens, Separated Parameter.Derives tokens
      (parameters.map fun parameter => { parameter with default := none }) := by
  induction separated with
  | nil => exact ⟨[], .nil⟩
  | last derives =>
      obtain ⟨part, typed, _⟩ := derives.exists_typedName
      exact ⟨part, .last (.required typed)⟩
  | cons derives isComma _ induction =>
      obtain ⟨part, typed, _⟩ := derives.exists_typedName
      obtain ⟨rest, separated⟩ := induction
      exact ⟨_, .cons (.required typed) isComma separated⟩

theorem derives_head {tokens : List Token} {function : Function}
    (derives : Derives tokens function) : ∃ tokens, Derives tokens function.head := by
  obtain ⟨isWord, isName, isOpening, separated, isClosing, words, result, block⟩ := derives
  obtain ⟨inner, separated⟩ := separated_required separated
  cases block with
  | block isBrace _ isClosingBrace =>
      exact ⟨_, .mk isWord isName isOpening separated isClosing words result
        (.block isBrace .nil isClosingBrace)⟩

theorem eq_of_shapes {function other : Function} {tokens tokens' : List Token}
    (derives : Derives tokens function) (derives' : Derives tokens' other)
    (same : function.shapes = other.shapes) :
    function.relocate (fun _ => .start) = other.relocate (fun _ => .start) := by
  let levels := function.shapes.length
  have read := @Parser.function_shapes levels 0 _ [] levels _ derives
    (fits_of_length_le (by omega)) (by omega)
  have read' := @Parser.function_shapes levels 0 _ [] levels _ derives'
    (fits_of_length_le (by rw [← same])) (by omega)
  rw [same, read'] at read
  exact (EStateM.Result.ok.inj read).1.symm

/-- Functions that are the same but for the places of their parameters, and for which of several
parameters of one name has a default. -/
structure LooksLike (function other : Function) : Prop where
  name : function.name = other.name
  parameters : (function.parameters.map fun parameter => (parameter.name.name, parameter.type)) =
    other.parameters.map fun parameter => (parameter.name.name, parameter.type)
  defaults : defaults function.parameters = defaults other.parameters
  modifiers : function.modifiers = other.modifiers
  returns : function.returns = other.returns
  body : function.body = other.body

theorem signatureText_eq_of_label {function other : Function}
    (same : function.label = other.label) : function.signatureText = other.signatureText := by
  have texts := congrArg String.toList same
  rw [toList_label, toList_label] at texts
  have starts {function : Function} (isConstructor : function.isConstructor = true) :
      function.signatureText.head? = some 'c' := by
    have name : function.name.name = "constructor" := beq_iff_eq.1 isConstructor
    simp [signatureText, name]
  split at texts
  · next isConstructor =>
      split at texts
      · exact texts
      · have first := starts isConstructor
        simp [show function.signatureText = _ from texts] at first
  · split at texts
    · next isConstructor =>
        have first := starts isConstructor
        simp [← show _ = other.signatureText from texts] at first
    · exact List.append_cancel_left texts

theorem signatureShapes_inj {function other : Function}
    (written : FromTokens Function.Derives function)
    (writtenToo : FromTokens Function.Derives other)
    (same : function.signatureText = other.signatureText) :
    function.head.relocate (fun _ => .start) = other.head.relocate (fun _ => .start) := by
  obtain ⟨_, derives, writable⟩ := written
  obtain ⟨_, derives', writable'⟩ := writtenToo
  have renders := renders_signatureText (derives.writable writable)
  have renders' := renders_signatureText (derives'.writable writable')
  rw [← String.toList_ofList (l := function.signatureText)] at renders
  rw [← same, ← String.toList_ofList (l := function.signatureText)] at renders'
  obtain ⟨_, derives⟩ := derives_head derives
  obtain ⟨_, derives'⟩ := derives_head derives'
  refine eq_of_shapes derives derives' ?_
  rw [shapes_head, shapes_head, renders.unique renders']

theorem defaultOutline_inj {given other : String × Expr}
    (same : defaultOutline given = defaultOutline other) : given = other := by
  obtain ⟨labels, values⟩ := Outline.node.inj same
  exact Prod.ext ((String.append_right_inj _).1 labels) (Expr.outline_inj (List.cons.inj values).1)

theorem children_inj {parameters parameters' : List Parameter} {body body' : List Stmt}
    (same : defaultOutlines parameters ++ body.map Stmt.outline =
      defaultOutlines parameters' ++ body'.map Stmt.outline) :
    defaults parameters = defaults parameters' ∧ body = body' := by
  let isDefault (tree : Outline) : Bool := tree.opening == ['d', 'e', 'f']
  have ofDefaults (given : String × Expr) : isDefault (defaultOutline given) = true := by
    simp [isDefault, defaultOutline, Outline.opening]
  have ofStmts (stmt : Stmt) : isDefault stmt.outline = false := by
    rw [stmt.outline_eq]
    cases stmt <;> simp [isDefault, Outline.opening, Expr.toList_labelAt, Stmt.word]
  rw [defaultOutlines_eq, defaultOutlines_eq] at same
  obtain ⟨first, rest⟩ := append_inj_of_sorts isDefault
    (List.forall_mem_map.2 fun given _ => ofDefaults given)
    (List.forall_mem_map.2 fun given _ => ofDefaults given)
    (List.forall_mem_map.2 fun stmt _ => ofStmts stmt)
    (List.forall_mem_map.2 fun stmt _ => ofStmts stmt) same
  exact ⟨eq_of_map_eq (fun _ _ _ => defaultOutline_inj) first,
    eq_of_map_eq (fun _ _ _ => Stmt.outline_inj) rest⟩

theorem LooksLike.outline_eq {function other : Function} (alike : function.LooksLike other) :
    function.outline = other.outline := by
  obtain ⟨name, parameters, defaults, modifiers, returns, body⟩ := alike
  have texts : parameterText function.parameters = parameterText other.parameters := by
    have shown := congrArg (List.map fun typed : String × TypeName =>
      Ident.typedText ⟨typed.1, .start⟩ typed.2) parameters
    rw [List.map_map, List.map_map] at shown
    exact congrArg (String.intercalate ", ") shown
  rw [outline, outline, label_eq, label_eq, headText, headText, isConstructor, isConstructor,
    defaultOutlines_eq, defaultOutlines_eq, texts, name, defaults, modifiers, returns, body]

theorem outline_eq_iff {function other : Function} (written : FromTokens Function.Derives function)
    (writtenToo : FromTokens Function.Derives other) :
    function.outline = other.outline ↔ function.LooksLike other := by
  refine ⟨fun same => ?_, LooksLike.outline_eq⟩
  obtain ⟨labels, children⟩ := Outline.node.inj same
  obtain ⟨places, labels⟩ := Expr.labelAt_inj labels
  obtain ⟨defaults, body⟩ := children_inj children
  have heads := signatureShapes_inj written writtenToo (signatureText_eq_of_label labels)
  have names := congrArg (fun function : Function => function.name.name) heads
  have parameters := congrArg (fun function : Function =>
    function.parameters.map fun parameter => (parameter.name.name, parameter.type)) heads
  simp only [relocate, head, List.map_map, Function.comp_def] at parameters
  exact ⟨congrArg₂ Ident.mk names places, parameters, defaults,
    congrArg (·.modifiers) heads, congrArg (·.returns) heads, body⟩

end Function

/-! Contracts and programs. -/

/-- Contracts that are the same but for the places of fields and parameters, and for which of
several parameters of one name has a default. -/
structure Contract.LooksLike (contract other : Contract) : Prop where
  name : contract.name = other.name
  stateVars : contract.stateVars = other.stateVars
  structs : contract.structs.map Struct.forgetFieldPlaces =
    other.structs.map Struct.forgetFieldPlaces
  functions : List.Forall₂ Function.LooksLike contract.functions other.functions

def Program.LooksLike (program other : Program) : Prop :=
  List.Forall₂ Contract.LooksLike program.contracts other.contracts

namespace Contract

theorem opening_stateVar (var : StateVar) : var.outline.opening = ['s', 't', 'a'] := by
  simp [var.outline_eq, Outline.leaf, Outline.opening, Expr.toList_labelAt]

theorem opening_struct (struct : Struct) : struct.outline.opening = ['s', 't', 'r'] := by
  have label : struct.outline = .node (Expr.labelAt struct.name.pos
      ("struct " ++ struct.name.name)) (struct.fields.map Field.outline) := rfl
  simp [label, Outline.opening, Expr.toList_labelAt]

theorem opening_function (function : Function) :
    function.outline.opening ∈ [['f', 'u', 'n'], ['c', 'o', 'n']] := by
  rw [Function.outline, Outline.opening, Expr.toList_labelAt, Function.label_eq, Function.headText]
  split <;> simp

theorem members_inj {contract other : Contract}
    (same : contract.stateVars.map StateVar.outline ++ contract.structs.map Struct.outline ++
        contract.functions.map Function.outline =
      other.stateVars.map StateVar.outline ++ other.structs.map Struct.outline ++
        other.functions.map Function.outline) :
    contract.stateVars.map StateVar.outline = other.stateVars.map StateVar.outline ∧
      contract.structs.map Struct.outline = other.structs.map Struct.outline ∧
      contract.functions.map Function.outline = other.functions.map Function.outline := by
  let isVar (tree : Outline) : Bool := tree.opening == ['s', 't', 'a']
  let isStruct (tree : Outline) : Bool := tree.opening == ['s', 't', 'r']
  have notFunction (function : Function) :
      isVar function.outline = false ∧ isStruct function.outline = false := by
    have opens := opening_function function
    simp only [List.mem_cons, List.not_mem_nil, or_false] at opens
    rcases opens with opens | opens <;> simp [isVar, isStruct, opens]
  have vars (contract : Contract) : ∀ tree ∈ contract.stateVars.map StateVar.outline,
      isVar tree = true :=
    List.forall_mem_map.2 fun var _ => by simp [isVar, opening_stateVar]
  have structs (contract : Contract) : ∀ tree ∈ contract.structs.map Struct.outline,
      isVar tree = false ∧ isStruct tree = true :=
    List.forall_mem_map.2 fun struct _ => by simp [isVar, isStruct, opening_struct]
  have functions (contract : Contract) : ∀ tree ∈ contract.functions.map Function.outline,
      isVar tree = false ∧ isStruct tree = false :=
    List.forall_mem_map.2 fun function _ => notFunction function
  have others (contract : Contract) : ∀ tree ∈ contract.structs.map Struct.outline ++
      contract.functions.map Function.outline, isVar tree = false :=
    List.forall_mem_append.2 ⟨fun tree member => (structs contract tree member).1,
      fun tree member => (functions contract tree member).1⟩
  rw [List.append_assoc, List.append_assoc] at same
  obtain ⟨first, rest⟩ := append_inj_of_sorts isVar (vars contract) (vars other) (others contract)
    (others other) same
  exact ⟨first, append_inj_of_sorts isStruct (fun tree member => (structs contract tree member).2)
    (fun tree member => (structs other tree member).2)
    (fun tree member => (functions contract tree member).2)
    (fun tree member => (functions other tree member).2) rest⟩

theorem LooksLike.outline_eq {contract other : Contract} (alike : contract.LooksLike other) :
    contract.outline = other.outline := by
  obtain ⟨name, stateVars, structs, functions⟩ := alike
  have structs : contract.structs.map Struct.outline = other.structs.map Struct.outline := by
    have shown := congrArg (List.map Struct.outline) structs
    simpa only [List.map_map, Function.comp_def, Struct.outline_forgetFieldPlaces] using shown
  have functions :
      contract.functions.map Function.outline = other.functions.map Function.outline :=
    map_eq_map_of_forall₂ (fun _ _ _ alike => alike.outline_eq) functions
  rw [outline, outline, name, stateVars, structs, functions]

theorem outline_eq_iff {contract other : Contract} (written : FromTokens Contract.Derives contract)
    (writtenToo : FromTokens Contract.Derives other) :
    contract.outline = other.outline ↔ contract.LooksLike other := by
  refine ⟨fun same => ?_, LooksLike.outline_eq⟩
  obtain ⟨labels, members⟩ := Outline.node.inj same
  obtain ⟨places, labels⟩ := Expr.labelAt_inj labels
  have names := (String.append_right_inj "contract ").1 labels
  obtain ⟨vars, structs, functions⟩ := members_inj members
  refine ⟨congrArg₂ Ident.mk names places, ?_, ?_, ?_⟩
  · rw [← List.forall₂_eq_eq_eq]
    exact forall₂_of_map_eq (fun var isVar other isVarToo =>
      StateVar.outline_inj (written.stateVar isVar) (writtenToo.stateVar isVarToo)) vars
  · exact map_eq_of_map_eq (fun struct isStruct other isStructToo =>
      (Struct.outline_eq_iff (written.struct isStruct) (writtenToo.struct isStructToo)).1) structs
  · exact forall₂_of_map_eq (fun function isFunction other isFunctionToo =>
      (Function.outline_eq_iff (written.function isFunction)
        (writtenToo.function isFunctionToo)).1) functions

end Contract

namespace Program

theorem plain_outlines {program : Program}
    (written : ∀ contract ∈ program.contracts, FromTokens Contract.Derives contract) :
    Outline.Plain program.outlines :=
  .map fun contract member => contract.plain_of_fromTokens (written contract member)

theorem renderAll_eq_iff {program other : Program}
    (written : ∀ contract ∈ program.contracts, FromTokens Contract.Derives contract)
    (writtenToo : ∀ contract ∈ other.contracts, FromTokens Contract.Derives contract) :
    Outline.renderAll program.outlines = Outline.renderAll other.outlines ↔
      program.LooksLike other := by
  constructor
  · intro same
    have trees := Outline.renderAll_inj (plain_outlines written) (plain_outlines writtenToo) same
    exact forall₂_of_map_eq (fun contract member other memberToo =>
      (Contract.outline_eq_iff (written contract member) (writtenToo other memberToo)).1) trees
  · intro alike
    have trees : program.outlines = other.outlines :=
      map_eq_map_of_forall₂ (fun _ _ _ alike => alike.outline_eq) alike
    rw [trees]

end Program

/-! Parameters with different names. -/

def Parameter.forgetPlace (parameter : Parameter) : Parameter :=
  { parameter with name := parameter.name.relocate fun _ => .start }

namespace Function

/-- A function without the places of its parameters. -/
def forgetParameterPlaces (function : Function) : Function :=
  { function with parameters := function.parameters.map Parameter.forgetPlace }

theorem defaults_cons (parameter : Parameter) (parameters : List Parameter) :
    defaults (parameter :: parameters) =
      (parameter.default.map fun value => (parameter.name.name, value)).toList ++
        defaults parameters := by
  cases given : parameter.default <;> simp [defaults, given]

theorem mem_names_of_mem_defaults {parameters : List Parameter} {name : String} {value : Expr}
    (member : (name, value) ∈ defaults parameters) :
    name ∈ parameters.map fun parameter => parameter.name.name := by
  obtain ⟨parameter, isParameter, given⟩ := List.mem_filterMap.1 member
  obtain ⟨value, _, same⟩ := Option.map_eq_some_iff.1 given
  cases same
  exact List.mem_map_of_mem isParameter

/-- A default that only one of two lists has at its front would be that of a second parameter with
the same name. -/
theorem defaults_cons_inj {parameter other : Parameter} {parameters others : List Parameter}
    (names : parameter.name.name = other.name.name)
    (new : parameter.name.name ∉ parameters.map fun parameter => parameter.name.name)
    (newToo : other.name.name ∉ others.map fun parameter => parameter.name.name)
    (given : defaults (parameter :: parameters) = defaults (other :: others)) :
    parameter.default = other.default ∧ defaults parameters = defaults others := by
  rw [defaults_cons, defaults_cons] at given
  cases here : parameter.default with
  | none =>
      cases there : other.default with
      | none => simpa [here, there] using given
      | some value =>
          refine absurd (@mem_names_of_mem_defaults parameters _ value ?_) new
          rw [here, Option.map_none, Option.toList_none, List.nil_append] at given
          simp [given, there, names]
  | some value =>
      cases there : other.default with
      | none =>
          refine absurd (@mem_names_of_mem_defaults others _ value ?_) newToo
          rw [there, Option.map_none, Option.toList_none, List.nil_append] at given
          simp [← given, here, names]
      | some value' => simpa [here, there, names] using given

theorem parameters_eq_of_distinct {parameters others : List Parameter}
    (distinct : (parameters.map fun parameter => parameter.name.name).Nodup)
    (typed : (parameters.map fun parameter => (parameter.name.name, parameter.type)) =
      others.map fun parameter => (parameter.name.name, parameter.type))
    (given : defaults parameters = defaults others) :
    parameters.map Parameter.forgetPlace = others.map Parameter.forgetPlace := by
  induction parameters generalizing others with
  | nil =>
      rw [List.map_nil, eq_comm, List.map_eq_nil_iff] at typed
      rw [typed]
  | cons parameter parameters induction =>
      obtain ⟨other, others, rfl, first, rest⟩ := List.map_eq_cons_iff.1 typed.symm
      obtain ⟨new, distinct⟩ := List.nodup_cons.1 distinct
      obtain ⟨names, types⟩ := Prod.mk.inj first
      have newToo : other.name.name ∉ others.map fun parameter => parameter.name.name := by
        have inOthers := congrArg (List.map Prod.fst) rest
        rw [List.map_map, List.map_map] at inOthers
        rw [names]
        exact fun member => new (inOthers ▸ member)
      obtain ⟨values, given⟩ := defaults_cons_inj names.symm new newToo given
      rw [List.map_cons, List.map_cons, induction distinct rest.symm given]
      simp only [Parameter.forgetPlace, Ident.relocate, names, types, values]

theorem LooksLike.forget_eq {function other : Function} (alike : function.LooksLike other)
    (distinct : (function.parameters.map fun parameter => parameter.name.name).Nodup) :
    function.forgetParameterPlaces = other.forgetParameterPlaces := by
  obtain ⟨name, typed, given, modifiers, returns, body⟩ := alike
  rw [forgetParameterPlaces, forgetParameterPlaces,
    parameters_eq_of_distinct distinct typed given, name, modifiers, returns, body]

theorem defaults_forgetPlace (parameters : List Parameter) :
    defaults (parameters.map Parameter.forgetPlace) = defaults parameters := by
  rw [defaults, List.filterMap_map]
  rfl

theorem looksLike_of_forget_eq {function other : Function}
    (same : function.forgetParameterPlaces = other.forgetParameterPlaces) :
    function.LooksLike other := by
  obtain ⟨name, parameters, returns, modifiers, body⟩ := function
  obtain ⟨name', parameters', returns', modifiers', body'⟩ := other
  obtain ⟨names, parameters, returns, modifiers, body⟩ := Function.mk.inj same
  have typed := congrArg (List.map fun parameter : Parameter =>
    (parameter.name.name, parameter.type)) parameters
  rw [List.map_map, List.map_map] at typed
  have given := congrArg Function.defaults parameters
  rw [defaults_forgetPlace, defaults_forgetPlace] at given
  exact ⟨names, typed, given, modifiers, returns, body⟩

end Function

/-- A contract without the places of its fields and parameters. -/
def Contract.forgetInnerPlaces (contract : Contract) : Contract :=
  { contract with
    functions := contract.functions.map Function.forgetParameterPlaces
    structs := contract.structs.map Struct.forgetFieldPlaces }

namespace Program

/-- A program without the places of its fields and parameters. -/
def forgetInnerPlaces (program : Program) : Program :=
  ⟨program.contracts.map Contract.forgetInnerPlaces⟩

/-- No function has two parameters of one name. -/
def NoNamesakes (program : Program) : Prop :=
  ∀ contract ∈ program.contracts, ∀ function ∈ contract.functions,
    (function.parameters.map fun parameter => parameter.name.name).Nodup

theorem looksLike_iff_of_noNamesakes {program other : Program} (distinct : program.NoNamesakes) :
    program.LooksLike other ↔ program.forgetInnerPlaces = other.forgetInnerPlaces := by
  constructor
  · intro alike
    refine congrArg Program.mk (map_eq_map_of_forall₂ (fun contract member other alike => ?_) alike)
    obtain ⟨name, stateVars, structs, functions⟩ := alike
    have functions := map_eq_map_of_forall₂ (fun function isFunction _ alike =>
      alike.forget_eq (distinct contract member function isFunction)) functions
    rw [Contract.forgetInnerPlaces, Contract.forgetInnerPlaces, name, stateVars, structs, functions]
  · intro same
    refine forall₂_of_map_eq (fun contract _ other _ same => ?_) (Program.mk.inj same)
    obtain ⟨name, stateVars, functions, structs⟩ := Contract.mk.inj same
    refine ⟨name, stateVars, structs, ?_⟩
    exact forall₂_of_map_eq (fun _ _ _ _ same => Function.looksLike_of_forget_eq same) functions

/-- Expressions that have been read have one tree text exactly if they are the same. Programs that
have been read have one tree text exactly if they are the same but for the places of fields and
parameters and for which of several parameters of one name has a default, so exactly if they are the
same but for these places where no function has two parameters of one name. -/
theorem tree_text_distinguishes :
    (∀ {limits limits' : Limits} {source source' : String} {expr expr' : Expr},
      Expr.parse limits source = .ok expr → Expr.parse limits' source' = .ok expr' →
        (expr.outline.render = expr'.outline.render ↔ expr = expr')) ∧
    ∀ {limits limits' : Limits} {source source' : String} {program program' : Program},
      parse limits source = .ok program → parse limits' source' = .ok program' →
        (Outline.renderAll program.outlines = Outline.renderAll program'.outlines ↔
          program.LooksLike program') ∧
        (program.NoNamesakes →
          (Outline.renderAll program.outlines = Outline.renderAll program'.outlines ↔
            program.forgetInnerPlaces = program'.forgetInnerPlaces)) := by
  constructor
  · intro _ _ _ _ expr expr' parsed parsed'
    obtain ⟨_, derives, writable⟩ := Expr.fromTokens_of_parse parsed
    obtain ⟨_, derives', writable'⟩ := Expr.fromTokens_of_parse parsed'
    refine ⟨fun same => ?_, fun same => by rw [same]⟩
    have plain := Expr.plain_outline (Expr.writable_of_derives derives writable)
    have plain' := Expr.plain_outline (Expr.writable_of_derives derives' writable')
    exact Expr.outline_inj (Outline.render_inj plain plain' same)
  · intro _ _ _ _ program program' parsed parsed'
    have texts := renderAll_eq_iff (fromTokens_of_parse parsed) (fromTokens_of_parse parsed')
    exact ⟨texts, fun distinct => texts.trans (looksLike_iff_of_noNamesakes distinct)⟩

/-- A program in which only a field and a parameter have moved between two sources. -/
def spaced (field parameter : Position) : Program :=
  ⟨[⟨⟨"C", ⟨1, 10⟩⟩, [],
    [⟨⟨"f", ⟨1, 42⟩⟩, [⟨⟨"a", parameter⟩, .named "bool", none⟩], none, .none, []⟩],
    [⟨⟨"S", ⟨1, 21⟩⟩, [⟨⟨"x", field⟩, .named "bool"⟩]⟩]⟩]⟩

def leftSource : String :=
  "contract C \x7b struct S \x7b x:   bool; \x7d def f(a: bool  ) \x7b \x7d \x7d"

def rightSource : String :=
  "contract C \x7b struct S \x7b   x: bool; \x7d def f(  a: bool) \x7b \x7d \x7d"

/-- The difference of two names, the second of them at a column. -/
def difference (column : Nat) : Expr :=
  .binary ⟨1, 1⟩ .sub (.ident ⟨1, 1⟩ "a") (.ident ⟨1, column⟩ "b")

theorem moved_tree_texts :
    parse ⟨96, 4⟩ leftSource = .ok (spaced ⟨1, 25⟩ ⟨1, 44⟩) ∧
      parse ⟨96, 4⟩ rightSource = .ok (spaced ⟨1, 27⟩ ⟨1, 46⟩) ∧
      (spaced ⟨1, 25⟩ ⟨1, 44⟩).NoNamesakes ∧
      Outline.renderAll (spaced ⟨1, 25⟩ ⟨1, 44⟩).outlines =
        Outline.renderAll (spaced ⟨1, 27⟩ ⟨1, 46⟩).outlines ∧
      Expr.parse ⟨8, 4⟩ "a-b" = .ok (difference 3) ∧
      Expr.parse ⟨8, 4⟩ "a - b" = .ok (difference 5) ∧
      (difference 3).outline.render ≠ (difference 5).outline.render := by
  have left : parse ⟨96, 4⟩ leftSource = .ok (spaced ⟨1, 25⟩ ⟨1, 44⟩) := by cbv
  have right : parse ⟨96, 4⟩ rightSource = .ok (spaced ⟨1, 27⟩ ⟨1, 46⟩) := by cbv
  have near : Expr.parse ⟨8, 4⟩ "a-b" = .ok (difference 3) := by cbv
  have far : Expr.parse ⟨8, 4⟩ "a - b" = .ok (difference 5) := by cbv
  have distinct : (spaced ⟨1, 25⟩ ⟨1, 44⟩).NoNamesakes := by
    simp [NoNamesakes, spaced]
  have texts := ((tree_text_distinguishes.2 left right).2 distinct).2 rfl
  have different : difference 3 ≠ difference 5 := by simp [difference]
  refine ⟨left, right, distinct, texts, near, far, fun same => ?_⟩
  exact different ((tree_text_distinguishes.1 near far).1 same)

/-- Two parameters of one name, the first or the second with a default at one place. -/
def namesakes (first second : Option Expr) (place : Position) : Program :=
  ⟨[⟨⟨"C", ⟨1, 10⟩⟩, [],
    [⟨⟨"f", ⟨1, 18⟩⟩, [⟨⟨"a", ⟨1, 20⟩⟩, .named "bool", first⟩,
      ⟨⟨"a", place⟩, .named "bool", second⟩], none, .none, []⟩], []⟩]⟩

def firstDefaultSource : String :=
  "contract C \x7b def f(a: bool =          1, a: bool) \x7b \x7d \x7d"

def secondDefaultSource : String :=
  "contract C \x7b def f(a: bool, a: bool = 1) \x7b \x7d \x7d"

theorem namesakes_tree_text :
    ∃ program program', parse ⟨96, 4⟩ firstDefaultSource = .ok program ∧
      parse ⟨96, 4⟩ secondDefaultSource = .ok program' ∧
      Outline.renderAll program.outlines = Outline.renderAll program'.outlines ∧
      program.forgetInnerPlaces ≠ program'.forgetInnerPlaces := by
  let one : Expr := .literal ⟨1, 39⟩ (.number "1")
  refine ⟨namesakes (some one) none ⟨1, 42⟩, namesakes none (some one) ⟨1, 29⟩, by cbv, by cbv,
    rfl, ?_⟩
  simp [forgetInnerPlaces, Contract.forgetInnerPlaces, Function.forgetParameterPlaces,
    Parameter.forgetPlace, namesakes]

end Program

end Covenant
