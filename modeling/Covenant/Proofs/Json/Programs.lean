import Covenant.Program.Json
import Covenant.Proofs.Json.Trees
import Covenant.Proofs.Program.Signatures
import Mathlib

/-! What the JSON form of a program tells: the program, with every number made a string. Types are
shown by their texts, which tell them apart if they have been read. -/

namespace Covenant

open Json (Same)

theorem Ident.eq_of_same {left right : Ident} (same : left.toJson.Same right.toJson) :
    left = right := by
  have names := (same.field "name" rfl rfl).string_inj
  have places := Position.eq_of_same (same.field "pos" rfl rfl)
  exact congrArg₂ Ident.mk names places

theorem TypeName.eq_of_same {left right : TypeName} (readable : left.Readable)
    (readableToo : right.Readable) (same : left.toJson.Same right.toJson) : left = right :=
  render_inj readable readableToo same.string_inj

theorem StorageLocation.render_inj {left right : StorageLocation}
    (same : left.render = right.render) : left = right := by
  cases left <;> cases right <;> simp [render] at same ⊢

theorem StateVar.eq_of_same {left right : StateVar} (readable : left.type.Readable)
    (readableToo : right.type.Readable) (same : left.toJson.Same right.toJson) : left = right := by
  have names := Ident.eq_of_same (same.field "name" rfl rfl)
  have types := TypeName.eq_of_same readable readableToo (same.field "typeName" rfl rfl)
  have locations : left.location.map id = right.location.map id :=
    (same.field "storageLocation" rfl rfl).option_map_eq (by simp)
      fun _ _ _ _ same => StorageLocation.render_inj same.string_inj
  rw [Option.map_id_fun, id, id] at locations
  cases left
  cases right
  simp_all

theorem Field.eq_of_same {left right : Field} (readable : left.type.Readable)
    (readableToo : right.type.Readable) (same : left.toJson.Same right.toJson) : left = right := by
  have names := Ident.eq_of_same (same.field "name" rfl rfl)
  have types := TypeName.eq_of_same readable readableToo (same.field "type" rfl rfl)
  exact congrArg₂ Field.mk names types

theorem Struct.eq_of_same {left right : Struct}
    (readable : ∀ field ∈ left.fields, field.type.Readable)
    (readableToo : ∀ field ∈ right.fields, field.type.Readable)
    (same : left.toJson.Same right.toJson) : left = right := by
  have names := Ident.eq_of_same (same.field "name" rfl rfl)
  have fields : left.fields.map id = right.fields.map id :=
    (same.field "fields" rfl rfl).map_eq fun field member other memberToo same =>
      Field.eq_of_same (readable field member) (readableToo other memberToo) same
  rw [List.map_id, List.map_id] at fields
  exact congrArg₂ Struct.mk names fields

theorem ReturnType.toJson_ne_null (type : ReturnType) : type.toJson ≠ .null := by
  cases type <;> exact Json.noConfusion

theorem ReturnType.eq_of_same {left right : ReturnType} (same : left.toJson.Same right.toJson) :
    left = right := by
  cases left with
  | single name =>
      cases right with
      | single name' => rw [same.string_inj]
      | tuple names' => cases same
  | tuple names =>
      cases right with
      | single name' => cases same
      | tuple names' =>
          have all : names.map id = names'.map id := same.map_eq fun _ _ _ _ same => same.string_inj
          rw [List.map_id, List.map_id] at all
          rw [all]

/-! Programs with every number made a string. -/

def Parameter.quoteNumbers (parameter : Parameter) : Parameter :=
  { parameter with default := parameter.default.map Expr.quoteNumbers }

def Function.quoteNumbers (function : Function) : Function :=
  { function with
    parameters := function.parameters.map Parameter.quoteNumbers
    body := function.body.map Stmt.quoteNumbers }

def Contract.quoteNumbers (contract : Contract) : Contract :=
  { contract with functions := contract.functions.map Function.quoteNumbers }

def Program.quoteNumbers (program : Program) : Program :=
  ⟨program.contracts.map Contract.quoteNumbers⟩

theorem Parameter.toJson_quoteNumbers (parameter : Parameter) :
    parameter.quoteNumbers.toJson = parameter.toJson := by
  obtain ⟨name, type, default⟩ := parameter
  cases default <;> simp [toJson, quoteNumbers, Json.ofOption]

theorem Function.toJson_quoteNumbers (function : Function) :
    function.quoteNumbers.toJson = function.toJson := by
  have parameters := @map_map_of_kept _ _ _ _ function.parameters fun parameter _ =>
    parameter.toJson_quoteNumbers
  have body := @map_map_of_kept _ _ _ _ function.body fun stmt _ => stmt.toJson_quoteNumbers
  simp only [toJson, quoteNumbers, isConstructor, parameters, body]

theorem Contract.toJson_quoteNumbers (contract : Contract) :
    contract.quoteNumbers.toJson = contract.toJson := by
  have functions := @map_map_of_kept _ _ _ _ contract.functions fun function _ =>
    function.toJson_quoteNumbers
  simp only [toJson, quoteNumbers, functions]

theorem Program.toJson_quoteNumbers (program : Program) :
    program.quoteNumbers.toJson = program.toJson := by
  have contracts := @map_map_of_kept _ _ _ _ program.contracts fun contract _ =>
    contract.toJson_quoteNumbers
  simp only [toJson, quoteNumbers, contracts]

theorem Parameter.eq_of_same {left right : Parameter} (readable : left.type.Readable)
    (readableToo : right.type.Readable) (same : left.toJson.Same right.toJson) :
    left.quoteNumbers = right.quoteNumbers := by
  have names := Ident.eq_of_same (same.field "name" rfl rfl)
  have types := TypeName.eq_of_same readable readableToo (same.field "typeName" rfl rfl)
  have defaults := Expr.option_eq_of_same (same.field "defaultValue" rfl rfl)
  rw [quoteNumbers, quoteNumbers, names, types, defaults]

theorem Function.eq_of_same {left right : Function}
    (readable : ∀ parameter ∈ left.parameters, parameter.type.Readable)
    (readableToo : ∀ parameter ∈ right.parameters, parameter.type.Readable)
    (same : left.toJson.Same right.toJson) : left.quoteNumbers = right.quoteNumbers := by
  have names := Ident.eq_of_same (same.field "name" rfl rfl)
  have parameters := (same.field "parameters" rfl rfl).map_eq
    fun parameter member other memberToo same =>
      Parameter.eq_of_same (readable parameter member) (readableToo other memberToo) same
  have returns : left.returns.map id = right.returns.map id :=
    (same.field "returnType" rfl rfl).option_map_eq ReturnType.toJson_ne_null
      fun _ _ _ _ same => ReturnType.eq_of_same same
  have payable := (same.field "isPayable" rfl rfl).bool_inj
  have view := (same.field "isView" rfl rfl).bool_inj
  have pure := (same.field "isPure" rfl rfl).bool_inj
  have onlyOwner := (same.field "isOnlyOwner" rfl rfl).bool_inj
  have body := (same.field "body" rfl rfl).map_eq fun _ _ _ _ same => Stmt.eq_of_same same
  have modifiers : left.modifiers = right.modifiers := by
    cases isLeft : left.modifiers
    cases isRight : right.modifiers
    simp_all
  rw [Option.map_id_fun, id, id] at returns
  rw [quoteNumbers, quoteNumbers, names, parameters, returns, modifiers, body]

theorem Contract.eq_of_same {left right : Contract} (readable : left.Readable)
    (readableToo : right.Readable) (same : left.toJson.Same right.toJson) :
    left.quoteNumbers = right.quoteNumbers := by
  have names := Ident.eq_of_same (same.field "name" rfl rfl)
  have stateVars : left.stateVars.map id = right.stateVars.map id :=
    (same.field "stateVars" rfl rfl).map_eq fun var member other memberToo same =>
      StateVar.eq_of_same (readable.stateVar member) (readableToo.stateVar memberToo) same
  have functions := (same.field "functions" rfl rfl).map_eq
    fun function member other memberToo same =>
      Function.eq_of_same (List.forall_mem_map.1 (readable.parameters member))
        (List.forall_mem_map.1 (readableToo.parameters memberToo)) same
  have structs : left.structs.map id = right.structs.map id :=
    (same.field "structs" rfl rfl).map_eq fun struct member other memberToo same =>
      Struct.eq_of_same (readable.fields member) (readableToo.fields memberToo) same
  rw [List.map_id, List.map_id] at stateVars structs
  rw [quoteNumbers, quoteNumbers, names, stateVars, functions, structs]

theorem Program.same_iff {left right : Program}
    (readable : ∀ contract ∈ left.contracts, contract.Readable)
    (readableToo : ∀ contract ∈ right.contracts, contract.Readable) :
    left.toJson.Same right.toJson ↔ left.quoteNumbers = right.quoteNumbers := by
  constructor
  · intro same
    have contracts := (same.field "contracts" rfl rfl).map_eq
      fun contract member other memberToo same =>
        Contract.eq_of_same (readable contract member) (readableToo other memberToo) same
    rw [quoteNumbers, quoteNumbers, contracts]
  · intro same
    rw [← left.toJson_quoteNumbers, same, right.toJson_quoteNumbers]
    exact .refl _

/-- Two expressions have the same JSON form exactly if they are the same up to numbers and strings
of the same digits, and so have two programs that have been read. -/
theorem Program.json_determines_trees {limits limits' : Limits} {source source' : String}
    {program program' : Program} (parsed : parse limits source = .ok program)
    (parsed' : parse limits' source' = .ok program') :
    (∀ left right : Expr,
      left.toJson.Same right.toJson ↔ left.quoteNumbers = right.quoteNumbers) ∧
    (program.toJson.Same program'.toJson ↔ program.quoteNumbers = program'.quoteNumbers) :=
  ⟨fun _ _ => Expr.same_iff, same_iff (readable_of_parse parsed) (readable_of_parse parsed')⟩

def Program.numberSource : String :=
  "contract C \x7b def f() \x7b return 1; \x7d \x7d"

def Program.paddedSource : String :=
  "contract C \x7b def f() \x7b return 01; \x7d \x7d"

def Program.stringSource : String :=
  "contract C \x7b def f() \x7b return \"1\"; \x7d \x7d"

/-- A contract with a function that returns a literal. -/
def Program.returning (literal : Literal) : Program :=
  ⟨[⟨⟨"C", ⟨1, 10⟩⟩, [], [⟨⟨"f", ⟨1, 18⟩⟩, [], none, .none,
    [.return_ ⟨1, 24⟩ (some (.literal ⟨1, 31⟩ literal))]⟩], []⟩]⟩

theorem Program.returning_json_determined :
    parse ⟨48, 4⟩ numberSource = .ok (returning (.number "1")) ∧
      parse ⟨48, 4⟩ paddedSource = .ok (returning (.number "01")) ∧
      parse ⟨48, 4⟩ stringSource = .ok (returning (.string "1")) ∧
      (returning (.number "1")).toJson.Same (returning (.string "1")).toJson ∧
      ¬ (returning (.number "1")).toJson.Same (returning (.number "01")).toJson := by
  have number : parse ⟨48, 4⟩ numberSource = .ok (returning (.number "1")) := by cbv
  have padded : parse ⟨48, 4⟩ paddedSource = .ok (returning (.number "01")) := by cbv
  have string : parse ⟨48, 4⟩ stringSource = .ok (returning (.string "1")) := by cbv
  refine ⟨number, padded, string, (json_determines_trees number string).2.2 rfl, fun same => ?_⟩
  have equal := (json_determines_trees number padded).2.1 same
  simp [returning, quoteNumbers, Contract.quoteNumbers, Function.quoteNumbers, Stmt.quoteNumbers,
    Expr.quoteNumbers, Literal.quoteNumber] at equal

/-- A number and the string of its digits are different expressions with one JSON form. -/
theorem Expr.number_json_like_string :
    ∃ number string, parse ⟨8, 4⟩ "1" = .ok number ∧ parse ⟨8, 4⟩ "\"1\"" = .ok string ∧
      number ≠ string ∧ number.toJson = string.toJson := by
  refine ⟨.literal ⟨1, 1⟩ (.number "1"), .literal ⟨1, 1⟩ (.string "1"), ?_, ?_, by simp, rfl⟩
  · cbv
  · cbv

end Covenant
