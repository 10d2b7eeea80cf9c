import Covenant.Proofs.Program.Rereading
import Covenant.Proofs.Rules.Relocation
import Mathlib

/-! Every place in a tree is the place of a token that the tree is derived from. This is said with
moves: a move that leaves the places of these tokens alone leaves the tree alone. -/

namespace Covenant

variable {move : Position → Position}

/-- The places of the tokens stay where they are. -/
def Token.Fixes (move : Position → Position) (tokens : List Token) : Prop :=
  ∀ token ∈ tokens, move token.pos = token.pos

namespace Token.Fixes

@[simp] theorem cons_iff {token : Token} {tokens : List Token} :
    Fixes move (token :: tokens) ↔ move token.pos = token.pos ∧ Fixes move tokens :=
  List.forall_mem_cons

@[simp] theorem append_iff {tokens others : List Token} :
    Fixes move (tokens ++ others) ↔ Fixes move tokens ∧ Fixes move others :=
  List.forall_mem_append

theorem mono {tokens others : List Token} (fixes : Fixes move tokens) (subset : others ⊆ tokens) :
    Fixes move others :=
  fun token member => fixes token (subset member)

theorem ident {token : Token} (fixed : move token.pos = token.pos) :
    token.ident.relocate move = token.ident := by
  rw [Token.ident, Ident.relocate, fixed]

end Token.Fixes

open Token (Fixes)

/-! Expressions. -/

namespace Expr

theorem move_pos_of_relocate {value : Expr} (same : value.relocate move = value) :
    move value.pos = value.pos :=
  (relocate_pos move value).symm.trans (congrArg pos same)

theorem map_relocate_written {elements : List Written} {comma : Bool} {inner : List Token}
    (joined : Joined (elements.map Written.tokens) comma inner) (fixes : Fixes move inner)
    (same : ∀ element ∈ elements, Fixes move element.tokens →
      element.value.relocate move = element.value) :
    (elements.map Written.value).map (relocate move) = elements.map Written.value := by
  rw [List.map_map]
  refine List.map_congr_left fun element member => ?_
  exact same element member (fixes.mono (joined.subset (List.mem_map_of_mem member)))

theorem map_relocate_properties {properties : List WrittenProperty} {comma : Bool}
    {inner : List Token} (joined : Joined (properties.map WrittenProperty.phrase) comma inner)
    (fixes : Fixes move inner)
    (same : ∀ property ∈ properties, Fixes move property.tokens →
      property.value.relocate move = property.value) :
    relocateProperties move (properties.map WrittenProperty.pair) =
      properties.map WrittenProperty.pair := by
  rw [relocateProperties_eq, List.map_map]
  refine List.map_congr_left fun property member => ?_
  have fixesPhrase := fixes.mono (joined.subset (List.mem_map_of_mem member))
  simp only [WrittenProperty.phrase, Fixes.cons_iff] at fixesPhrase
  change (property.key.text, property.value.relocate move) = _
  rw [same property member fixesPhrase.2.2]
  rfl

theorem Derives.relocate_eq {phrase : Phrase} {tokens : List Token} {value : Expr}
    (derives : Derives phrase tokens value) (fixes : Fixes move tokens) :
    value.relocate move = value := by
  induction derives with
  | noChoice _ induction | noOperator _ induction | operand _ induction | noSign _ induction
  | chain _ induction => exact induction fixes
  | number | string | true_ | false_ | name =>
      rw [relocate, fixes _ (List.mem_singleton_self _)]
  | choice _ _ _ _ _ test first second =>
      simp only [Fixes.append_iff, Fixes.cons_iff] at fixes
      obtain ⟨inTest, -, inFirst, -, inSecond⟩ := fixes
      rw [relocate, test inTest, first inFirst, second inSecond, move_pos_of_relocate (test inTest)]
  | operator _ _ _ first second =>
      simp only [Fixes.append_iff, Fixes.cons_iff] at fixes
      obtain ⟨inFirst, -, inSecond⟩ := fixes
      rw [relocate, first inFirst, second inSecond, move_pos_of_relocate (first inFirst)]
  | sign _ _ operand =>
      obtain ⟨atSign, inOperand⟩ := Fixes.cons_iff.1 fixes
      rw [relocate, atSign, operand inOperand]
  | group _ _ _ induction =>
      simp only [Fixes.append_iff, Fixes.cons_iff] at fixes
      exact induction fixes.2.1
  | array _ _ joined _ elements =>
      simp only [Fixes.append_iff, Fixes.cons_iff] at fixes
      obtain ⟨atOpening, inside, -⟩ := fixes
      rw [relocate, relocateAll_eq, atOpening, map_relocate_written joined inside elements]
  | tuple _ _ joined _ _ elements =>
      simp only [Fixes.append_iff, Fixes.cons_iff] at fixes
      obtain ⟨atOpening, inside, -⟩ := fixes
      rw [relocate, relocateAll_eq, atOpening, map_relocate_written joined inside elements]
  | object _ _ _ _ joined _ properties =>
      simp only [Fixes.append_iff, Fixes.cons_iff] at fixes
      obtain ⟨atOpening, inside, -⟩ := fixes
      rw [relocate, atOpening, map_relocate_properties joined inside properties]
  | member _ _ _ base =>
      have inBase := (Fixes.append_iff.1 fixes).1
      rw [relocate, base inBase, move_pos_of_relocate (base inBase)]
  | index _ _ _ _ base key =>
      simp only [Fixes.append_iff, Fixes.cons_iff] at fixes
      obtain ⟨inBase, -, inKey, -⟩ := fixes
      rw [relocate, base inBase, key inKey, move_pos_of_relocate (base inBase)]
  | call _ _ _ joined _ base arguments =>
      simp only [Fixes.append_iff, Fixes.cons_iff] at fixes
      obtain ⟨inBase, -, inside, -⟩ := fixes
      rw [relocate, relocateAll_eq, base inBase, map_relocate_written joined inside arguments,
        move_pos_of_relocate (base inBase)]

end Expr

/-! Statements. -/

namespace Stmt

theorem Simple.relocate_eq {tokens : List Token} {stmt : Stmt} (simple : Simple tokens stmt)
    (fixes : Fixes move tokens) : stmt.relocate move = stmt := by
  cases simple with
  | break_ | continue_ => rw [relocate, fixes _ (List.mem_singleton_self _)]
  | return_ => rw [relocate, fixes _ (List.mem_singleton_self _), Option.map_none]
  | returnValue _ derives =>
      obtain ⟨atWord, inValue⟩ := Fixes.cons_iff.1 fixes
      rw [relocate, atWord, Option.map_some, derives.relocate_eq inValue]
  | expr derives =>
      rw [relocate, (Fixes.cons_iff.1 fixes).1, derives.relocate_eq fixes]
  | assign derives _ value =>
      obtain ⟨inTarget, others⟩ := Fixes.append_iff.1 fixes
      have inValue := (Fixes.cons_iff.1 others).2
      rw [relocate, (Fixes.cons_iff.1 inTarget).1, Assignment.relocate,
        derives.relocate_eq inTarget, value.relocate_eq inValue]

theorem Step.relocate_eq {counter : Token} {tokens : List Token} {value : Expr}
    (step : Step counter tokens value) (atCounter : move counter.pos = counter.pos)
    (fixes : Fixes move tokens) : value.relocate move = value := by
  cases step with
  | one => rw [Expr.relocate, atCounter]
  | given _ derives => exact derives.relocate_eq (Fixes.cons_iff.1 fixes).2

theorem countBy_relocate (counter : Ident) (step : Expr) :
    (countBy counter step).relocate move = countBy (counter.relocate move) (step.relocate move) := by
  simp [countBy, counterExpr, Assignment.relocate, Expr.relocate, Ident.relocate]

theorem Derives.relocate_eq {phrase : Phrase} {tokens : List Token} {body : List Stmt}
    (derives : Derives phrase tokens body) (fixes : Fixes move tokens) :
    body.map (relocate move) = body := by
  induction derives with
  | nil => rfl
  | block _ _ _ induction =>
      simp only [Fixes.append_iff, Fixes.cons_iff] at fixes
      exact induction fixes.2.1
  | cons _ _ first rest =>
      obtain ⟨inFirst, inRest⟩ := Fixes.append_iff.1 fixes
      rw [List.map_cons, rest inRest, (List.cons.inj (first inFirst)).1]
  | simple isSimple _ =>
      rw [List.map_singleton, isSimple.relocate_eq (Fixes.append_iff.1 fixes).1]
  | while_ _ test _ _ body =>
      simp only [Fixes.append_iff, Fixes.cons_iff] at fixes
      obtain ⟨atWord, inTest, inBody, -⟩ := fixes
      rw [List.map_singleton, relocate, relocateAll_eq, atWord, test.relocate_eq inTest, body inBody]
  | for_ _ _ _ start _ stop step _ body =>
      simp only [Fixes.append_iff, Fixes.cons_iff] at fixes
      obtain ⟨atWord, atCounter, -, inStart, -, inStop, inStep, inBody⟩ := fixes
      rw [List.map_singleton, relocate, relocateAll_eq, countBy_relocate, atWord,
        Fixes.ident atCounter, start.relocate_eq inStart, stop.relocate_eq inStop,
        step.relocate_eq atCounter inStep, body inBody]
  | branch _ induction => exact induction fixes
  | if_ _ test _ yes =>
      simp only [Fixes.append_iff, Fixes.cons_iff] at fixes
      obtain ⟨atWord, inTest, inYes⟩ := fixes
      rw [List.map_singleton, relocate, relocateAll_eq, atWord, test.relocate_eq inTest, yes inYes]
  | ifElse _ test _ _ _ _ yes no =>
      simp only [Fixes.append_iff, Fixes.cons_iff] at fixes
      obtain ⟨atWord, inTest, inYes, -, inNo⟩ := fixes
      rw [List.map_singleton, relocate, relocateAll_eq, relocateAll_eq, atWord,
        test.relocate_eq inTest, yes inYes, no inNo]

end Stmt

/-! Declarations. -/

theorem TypedName.relocate_eq {tokens : List Token} {name : Ident} {type : TypeName}
    (typed : TypedName tokens name type) (fixes : Fixes move tokens) : name.relocate move = name := by
  cases typed
  exact Fixes.ident (Fixes.cons_iff.1 fixes).1

theorem StateVar.Derives.relocate_eq {tokens : List Token} {var : StateVar}
    (derives : StateVar.Derives tokens var) (fixes : Fixes move tokens) :
    var.relocate move = var := by
  obtain ⟨typed, _, _⟩ := derives
  rw [StateVar.relocate, typed.relocate_eq (Fixes.append_iff.1 fixes).1]

theorem Field.Derives.relocate_eq {tokens : List Token} {field : Field}
    (derives : Field.Derives tokens field) (fixes : Fixes move tokens) :
    field.relocate move = field := by
  obtain ⟨typed, _⟩ := derives
  rw [Field.relocate, typed.relocate_eq (Fixes.append_iff.1 fixes).1]

theorem Parameter.Derives.relocate_eq {tokens : List Token} {parameter : Parameter}
    (derives : Parameter.Derives tokens parameter) (fixes : Fixes move tokens) :
    parameter.relocate move = parameter := by
  cases derives with
  | required typed => rw [Parameter.relocate, typed.relocate_eq fixes, Option.map_none]
  | optional typed _ value =>
      simp only [Fixes.append_iff, Fixes.cons_iff] at fixes
      obtain ⟨inTyped, -, inValue⟩ := fixes
      rw [Parameter.relocate, typed.relocate_eq inTyped, Option.map_some, value.relocate_eq inValue]

/-- The values of phrases that stay where they are. -/
theorem map_eq_of_phrases {α : Type} {Item : List Token → α → Prop} {f : α → α}
    {tokens : List Token} {values : List α} (fixes : Fixes move tokens)
    (phrases : ∀ value ∈ values, ∃ part, Item part value ∧ part ⊆ tokens)
    (same : ∀ part value, Item part value → Fixes move part → f value = value) :
    values.map f = values := by
  refine map_eq_self fun value member => ?_
  obtain ⟨part, item, within⟩ := phrases value member
  exact same part value item (fixes.mono within)

theorem Struct.Derives.relocate_eq {tokens : List Token} {struct : Struct}
    (derives : Struct.Derives tokens struct) (fixes : Fixes move tokens) :
    struct.relocate move = struct := by
  obtain ⟨_, _, _, fields, _⟩ := derives
  simp only [Fixes.append_iff, Fixes.cons_iff] at fixes
  obtain ⟨-, atName, -, inFields, -⟩ := fixes
  have sameFields := map_eq_of_phrases inFields (fun _ => fields.exists_of_mem)
    fun _ _ => Field.Derives.relocate_eq
  rw [Struct.relocate, Fixes.ident atName, sameFields]

theorem Function.Derives.relocate_eq {tokens : List Token} {function : Function}
    (derives : Function.Derives tokens function) (fixes : Fixes move tokens) :
    function.relocate move = function := by
  obtain ⟨_, _, _, parameters, _, _, _, body⟩ := derives
  simp only [Fixes.append_iff, Fixes.cons_iff] at fixes
  obtain ⟨-, atName, -, inParameters, -, -, -, inBody⟩ := fixes
  have sameParameters := map_eq_of_phrases inParameters (fun _ => parameters.exists_of_mem)
    fun _ _ => Parameter.Derives.relocate_eq
  rw [Function.relocate, Fixes.ident atName, sameParameters, body.relocate_eq inBody]

theorem Members.relocate_eq {tokens : List Token} {vars : List StateVar}
    {functions : List Function} {structs : List Struct}
    (members : Members tokens vars functions structs) (fixes : Fixes move tokens) :
    vars.map (StateVar.relocate move) = vars ∧ functions.map (Function.relocate move) = functions ∧
      structs.map (Struct.relocate move) = structs := by
  induction members with
  | nil => exact ⟨rfl, rfl, rfl⟩
  | stateVar first _ induction =>
      obtain ⟨inFirst, inRest⟩ := Fixes.append_iff.1 fixes
      obtain ⟨vars, others⟩ := induction inRest
      exact ⟨by rw [List.map_cons, first.relocate_eq inFirst, vars], others⟩
  | function first _ induction =>
      obtain ⟨inFirst, inRest⟩ := Fixes.append_iff.1 fixes
      obtain ⟨vars, functions, structs⟩ := induction inRest
      exact ⟨vars, by rw [List.map_cons, first.relocate_eq inFirst, functions], structs⟩
  | struct first _ induction =>
      obtain ⟨inFirst, inRest⟩ := Fixes.append_iff.1 fixes
      obtain ⟨vars, functions, structs⟩ := induction inRest
      exact ⟨vars, functions, by rw [List.map_cons, first.relocate_eq inFirst, structs]⟩

theorem Contract.Derives.relocate_eq {tokens : List Token} {contract : Contract}
    (derives : Contract.Derives tokens contract) (fixes : Fixes move tokens) :
    contract.relocate move = contract := by
  obtain ⟨_, _, _, members, _⟩ := derives
  simp only [Fixes.append_iff, Fixes.cons_iff] at fixes
  obtain ⟨-, atName, -, inMembers, -⟩ := fixes
  obtain ⟨vars, functions, structs⟩ := members.relocate_eq inMembers
  rw [Contract.relocate, Fixes.ident atName, vars, functions, structs]

namespace Program

theorem Derives.relocate_eq {tokens : List Token} {program : Program}
    (derives : Derives tokens program) (fixes : Fixes move tokens) :
    program.relocate move = program := by
  obtain ⟨contracts, _⟩ := derives
  have same := map_eq_of_phrases fixes (fun _ => contracts.exists_of_mem)
    fun _ _ => Contract.Derives.relocate_eq
  rw [relocate, same]

/-- A semantic error is reported at a token that the program is derived from. -/
theorem Derives.pos_of_check {tokens : List Token} {program : Program}
    {error : Located SemanticError} (derives : Derives tokens program)
    (rejected : program.check = .error error) : error.pos ∈ tokens.map Token.pos := by
  classical
  -- A move that leaves the places of the tokens alone, and no other place.
  let move : Position → Position := fun pos =>
    if pos ∈ tokens.map Token.pos then pos else ⟨pos.line + 1, pos.column⟩
  have fixes : Fixes move tokens := fun token member => if_pos (List.mem_map_of_mem member)
  have moved := check_relocate move program
  rw [derives.relocate_eq fixes, rejected] at moved
  have fixed : error.pos = move error.pos := congrArg Located.pos (Except.error.inj moved)
  by_contra elsewhere
  have lines := congrArg Position.line fixed
  simp only [move, if_neg elsewhere] at lines
  omega

end Program

end Covenant
