import Covenant.Proofs.Program.Nesting
import Covenant.Proofs.Program.Printing
import Mathlib

/-! Which types can be declared within a depth: those with no more mappings inside each other than
the depth allows, and any number of arrays inside these. -/

namespace Covenant

open Token (Shape)

theorem Contract.relocate_types (move : Position → Position) (contract : Contract) :
    (contract.relocate move).types = contract.types := by
  simp [types, relocate, Function.relocate, Struct.relocate, List.flatMap_map, Function.comp_def,
    StateVar.relocate, Parameter.relocate, Field.relocate]

namespace TypeName

def brackets : Nat → TypeName
  | 0 => .named "uint8"
  | count + 1 => .array (brackets count)

/-- Mappings inside each other, and brackets in the innermost of them. -/
def layered (arrays : Nat) : (mappings : Nat) → TypeName
  | 0 => brackets arrays
  | mappings + 1 => .mapping "address" (layered arrays mappings)

theorem mappings_brackets (count : Nat) : (brackets count).mappings = 0 := by
  induction count with
  | zero => rfl
  | succ count induction => exact induction

theorem arrays_brackets (count : Nat) : (brackets count).arrays = count := by
  induction count with
  | zero => rfl
  | succ count induction => exact congrArg (· + 1) induction

theorem mappings_layered (arrays mappings : Nat) :
    (layered arrays mappings).mappings = mappings := by
  induction mappings with
  | zero => exact mappings_brackets arrays
  | succ mappings induction => exact congrArg (· + 1) induction

theorem arrays_layered (arrays mappings : Nat) : (layered arrays mappings).arrays = arrays := by
  induction mappings with
  | zero => exact arrays_brackets arrays
  | succ mappings induction => exact induction

theorem arrays_brackets_shapes (count : Nat) :
    Arrays ((brackets count).shapes.map Shape.token) (brackets count) := by
  induction count with
  | zero => exact .name rfl (by decide)
  | succ count induction =>
      rw [brackets, shapes, List.map_append]
      exact .brackets induction rfl rfl

theorem derives_layered (arrays mappings : Nat) :
    Derives ((layered arrays mappings).shapes.map Shape.token) (layered arrays mappings) := by
  induction mappings with
  | zero => exact .arrays (arrays_brackets_shapes arrays)
  | succ mappings induction =>
      rw [layered, shapes, List.append_assoc, List.map_append, List.map_append]
      exact .mapping ⟨rfl, rfl⟩ rfl rfl rfl induction rfl

theorem writable_layered (arrays mappings : Nat) :
    Shape.Writable (layered arrays mappings).shapes := by
  have writableBrackets : Shape.Writable (brackets arrays).shapes := by
    have isName : (Shape.name "uint8").Spelled :=
      Shape.spelled_name (by decide) (by decide) (by decide)
    induction arrays with
    | zero => simp [brackets, shapes, isName]
    | succ count induction => simp [brackets, shapes, induction]
  have word : (Shape.name "mapping").Spelled :=
    Shape.spelled_name (by decide) (by decide) (by decide)
  have key : (Shape.name "address").Spelled :=
    Shape.spelled_name (by decide) (by decide) (by decide)
  induction mappings with
  | zero => exact writableBrackets
  | succ mappings induction => simp [layered, shapes, word, key, induction]

end TypeName

/-! Declarations of a type. -/

/-- What declares the type. -/
inductive TypeName.Site where
  | stateVar
  | parameter
  | field

namespace TypeName.Site

def contract (site : Site) (type : TypeName) : Contract :=
  match site with
  | stateVar => ⟨⟨"A", .start⟩, [⟨⟨"a", .start⟩, type, none⟩], [], []⟩
  | parameter =>
      ⟨⟨"A", .start⟩, [], [⟨⟨"f", .start⟩, [⟨⟨"a", .start⟩, type, none⟩], none, .none, []⟩], []⟩
  | field => ⟨⟨"A", .start⟩, [], [], [⟨⟨"S", .start⟩, [⟨⟨"a", .start⟩, type⟩]⟩]⟩

def front : Site → List Shape
  | stateVar => [.word .contract, .name "A", .sign .lbrace, .name "a", .sign .colon]
  | parameter =>
      [.word .contract, .name "A", .sign .lbrace, .word .def_, .name "f", .sign .lparen, .name "a",
        .sign .colon]
  | field =>
      [.word .contract, .name "A", .sign .lbrace, .word .struct, .name "S", .sign .lbrace,
        .name "a", .sign .colon]

def back : Site → List Shape
  | stateVar => [.sign .semicolon, .sign .rbrace]
  | parameter => [.sign .rparen, .sign .lbrace, .sign .rbrace, .sign .rbrace]
  | field => [.sign .semicolon, .sign .rbrace, .sign .rbrace]

theorem shapes_contract (site : Site) (type : TypeName) :
    (site.contract type).shapes = site.front ++ (type.shapes ++ site.back) := by
  cases site <;> simp [contract, front, back, Contract.shapes, Stmt.braced, StateVar.shapes,
    Function.shapes, Modifiers.shapes, Parameter.shapes, Struct.shapes, Field.shapes,
    Ident.typedShapes, Shape.commaSeparated, Modifiers.none, Modifiers.has]

theorem writable_front (site : Site) : Shape.Writable site.front := by
  have contract : (Shape.name "A").Spelled := Shape.spelled_name (by decide) (by decide) (by decide)
  have function : (Shape.name "f").Spelled := Shape.spelled_name (by decide) (by decide) (by decide)
  have struct : (Shape.name "S").Spelled := Shape.spelled_name (by decide) (by decide) (by decide)
  have name : (Shape.name "a").Spelled := Shape.spelled_name (by decide) (by decide) (by decide)
  cases site <;> simp [front, contract, function, struct, name]

theorem writable_back (site : Site) : Shape.Writable site.back := by
  cases site <;> simp [back]

theorem derives_contract (site : Site) {type : TypeName} {tokens : List Token}
    (derives : type.Derives tokens) : ∃ written, Contract.Derives written (site.contract type) := by
  have typed : TypedName ((Shape.name "a").token :: (Shape.sign .colon).token :: tokens)
      ⟨"a", .start⟩ type :=
    .mk rfl rfl derives
  have wrap {inner : List Token} {vars : List StateVar} {functions : List Function}
      {structs : List Struct} (members : Members inner vars functions structs) :
      ∃ written, Contract.Derives written ⟨⟨"A", .start⟩, vars, functions, structs⟩ :=
    ⟨(Shape.word .contract).token :: (Shape.name "A").token :: (Shape.sign .lbrace).token ::
      (inner ++ [(Shape.sign .rbrace).token]), .mk rfl rfl rfl members rfl⟩
  cases site with
  | stateVar =>
      have var : StateVar.Derives (_ ++ ([] ++ [(Shape.sign .semicolon).token]))
          ⟨⟨"a", .start⟩, type, none⟩ :=
        .mk typed .none rfl
      exact wrap (.stateVar var .nil)
  | parameter =>
      have body : Stmt.Derives .block
          ((Shape.sign .lbrace).token :: ([] ++ [(Shape.sign .rbrace).token])) [] :=
        .block rfl .nil rfl
      have function : Function.Derives ((Shape.word .def_).token :: (Shape.name "f").token ::
          (Shape.sign .lparen).token :: (_ ++ (Shape.sign .rparen).token :: ([] ++ ([] ++ _))))
          ⟨⟨"f", .start⟩, [⟨⟨"a", .start⟩, type, none⟩], none, .none, []⟩ :=
        .mk rfl rfl rfl (.last (.required typed)) rfl .none .none body
      exact wrap (.function function .nil)
  | field =>
      have fields : Repeated Field.Derives
          ((_ ++ [(Shape.sign .semicolon).token]) ++ []) [⟨⟨"a", .start⟩, type⟩] :=
        .cons (.mk typed rfl) .nil
      have struct : Struct.Derives ((Shape.word .struct).token :: (Shape.name "S").token ::
          (Shape.sign .lbrace).token :: (_ ++ [(Shape.sign .rbrace).token]))
          ⟨⟨"S", .start⟩, [⟨⟨"a", .start⟩, type⟩]⟩ :=
        .mk rfl rfl rfl fields rfl
      exact wrap (.struct struct .nil)

/-- Only the body of a function opens a level of its own. -/
theorem fits_contract (site : Site) {type : TypeName} {levels : Nat}
    (room : type.mappings ≤ levels) (positive : site = parameter → 0 < levels) :
    (site.contract type).Fits levels := by
  cases site with
  | stateVar => exact ⟨by simpa [contract] using room, by simp [contract], by simp [contract]⟩
  | parameter =>
      refine ⟨by simp [contract], by simp [contract], ?_⟩
      simp only [contract, List.forall_mem_singleton]
      exact ⟨by simpa using ⟨room, by simp⟩, Nat.succ_le_of_lt (positive rfl)⟩
  | field => exact ⟨by simp [contract], by simpa [contract] using room, by simp [contract]⟩

theorem relocate_contract (site : Site) (type : TypeName) :
    (site.contract type).relocate (fun _ => .start) = site.contract type := by
  cases site <;> rfl

end TypeName.Site

namespace Program

/-- A contract with one state variable. -/
def declaring (type : TypeName) : Program :=
  ⟨[⟨⟨"A", .start⟩, [⟨⟨"a", .start⟩, type, none⟩], [], []⟩]⟩

theorem parse_declaring (limits : Limits) {tokens : List Token} {type : TypeName}
    (derives : type.Derives tokens) (writable : Shape.Writable type.shapes)
    (room : type.mappings ≤ limits.depth)
    (short : (declaring type).print.utf8ByteSize ≤ limits.sourceBytes) :
    ∃ program, parse limits (declaring type).print = .ok program ∧
      ∃ contract ∈ program.contracts, type ∈ contract.types := by
  let site := TypeName.Site.stateVar
  obtain ⟨_, derives⟩ := site.derives_contract derives
  have derivesAll : Derives (_ ++ []) (declaring type) := .mk (.cons derives .nil) (by simp)
  have writableAll : Shape.Writable (declaring type).shapes := by
    have shapes : (declaring type).shapes = (site.contract type).shapes := by
      simp [Program.shapes, declaring, site, TypeName.Site.contract]
    rw [shapes, site.shapes_contract]
    simp [site.writable_front, site.writable_back, writable]
  have fits : (site.contract type).Fits limits.depth := site.fits_contract room (by simp [site])
  obtain ⟨program, parsed, same⟩ := parse_of_renders derivesAll (Token.renders_write writableAll)
    (List.forall_mem_singleton.2 fits) short
  have contracts : program.contracts.map (Contract.relocate fun _ => .start) =
      (declaring type).contracts := congrArg Program.contracts same
  obtain ⟨contract, isContract, moved⟩ := List.map_eq_singleton_iff.1 contracts
  refine ⟨program, parsed, contract, by simp [isContract], ?_⟩
  rw [← Contract.relocate_types fun _ => .start, moved]
  simp [Contract.types]

end Program

/-- Within a depth, the types that can be declared have as many mappings inside each other as the
depth allows, and no more. The arrays inside each other do not count. -/
theorem declared_type_nesting_iff (depth mappings arrays : Nat) :
    (∃ bytes source program, Program.parse ⟨bytes, depth⟩ source = .ok program ∧
      ∃ contract ∈ program.contracts, ∃ type ∈ contract.types,
        type.mappings = mappings ∧ type.arrays = arrays) ↔ mappings ≤ depth := by
  constructor
  · rintro ⟨bytes, source, program, parsed, contract, isContract, type, isType, rfl, _⟩
    obtain ⟨_, tokens, _, after, ran⟩ := Parser.runSource_eq_ok_iff.1 parsed
    exact (Parser.yields_program depth rfl ran contract isContract).types type isType
  · intro room
    let type := TypeName.layered arrays mappings
    have fits : type.mappings ≤ depth := by rwa [TypeName.mappings_layered]
    let limits : Limits := ⟨(Program.declaring type).print.utf8ByteSize, depth⟩
    obtain ⟨program, parsed, contract, isContract, isType⟩ := Program.parse_declaring limits
      (TypeName.derives_layered arrays mappings) (TypeName.writable_layered arrays mappings) fits
      (Nat.le_refl _)
    exact ⟨_, _, program, parsed, contract, isContract, type, isType,
      TypeName.mappings_layered arrays mappings, TypeName.arrays_layered arrays mappings⟩

/-- Two arrays inside each other are declared although the depth is one. -/
theorem arrays_nest_beyond_depth :
    Program.parse ⟨64, 1⟩ "contract A \x7b a: uint256[][]; \x7d" =
        .ok ⟨[⟨⟨"A", ⟨1, 10⟩⟩,
          [⟨⟨"a", ⟨1, 14⟩⟩, .array (.array (.named "uint256")), none⟩], [], []⟩]⟩ ∧
      1 < (TypeName.array (.array (.named "uint256"))).mappings +
        (TypeName.array (.array (.named "uint256"))).arrays := by
  constructor
  · cbv
  · decide

end Covenant
