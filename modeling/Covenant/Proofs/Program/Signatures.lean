import Covenant.Abi.Signature
import Covenant.Proofs.Program.TypeNesting
import Mathlib

/-! The texts of types and signatures. They stand for the tokens of the types they show, so that a
type can be read from its text, and different names or types give different signatures. -/

namespace Covenant

open Token (Shape Renders)

/-- Only four characters come second in a symbol. -/
theorem Symbol.second_mem_of_ofPair? {c d : Char} {symbol : Symbol}
    (found : ofPair? c d = some symbol) : d ∈ ['>', '=', '&', '|'] := by
  unfold ofPair? at found
  split at found <;> cases found <;> decide

namespace Lexeme

theorem separates_of_not_mem {stop : Char} (notWord : isWordChar stop = false)
    (notPoint : stop ≠ '.') (notSecond : stop ∉ ['>', '=', '&', '|']) : Separates stop := by
  refine ⟨notWord, notPoint, fun c => Option.eq_none_iff_forall_ne_some.2 fun symbol found => ?_⟩
  exact notSecond (Symbol.second_mem_of_ofPair? found)

theorem separates_lparen : Separates '(' := separates_of_not_mem rfl (by decide) (by decide)

theorem separates_rparen : Separates ')' := separates_of_not_mem rfl (by decide) (by decide)

theorem separates_lbracket : Separates '[' := separates_of_not_mem rfl (by decide) (by decide)

theorem separates_comma : Separates ',' := separates_of_not_mem rfl (by decide) (by decide)

theorem separates_space : Separates ' ' := separates_of_blank (by decide)

end Lexeme

/-- A symbol that is no front of another one needs no blank text behind it. -/
theorem Token.Renders.sign {symbol : Symbol} {c : Char} {text : List Char} {shapes : List Shape}
    (isChar : Symbol.ofChar? c = some symbol) (alone : ∀ d, Symbol.ofPair? c d = none)
    (renders : Renders text shapes) : Renders (c :: text) (.sign symbol :: shapes) := by
  have written : (Shape.sign symbol).text.toList = [c] := Symbol.spelling_of_ofChar? isChar
  have token := Renders.token (Shape.endsBefore_sign isChar alone text) renders
  rwa [written] at token

namespace TypeName

/-- A type that can be read from some tokens. -/
structure Readable (type : TypeName) : Prop where
  derives : ∃ tokens, type.Derives tokens
  writable : Shape.Writable type.shapes

/-- A type with all types inside it. -/
def parts : TypeName → List TypeName
  | named name => [named name]
  | array element => array element :: element.parts
  | mapping key value => mapping key value :: value.parts

theorem Readable.part {type part : TypeName} (readable : type.Readable)
    (isPart : part ∈ type.parts) : part.Readable := by
  induction type with
  | named name =>
      obtain rfl := List.mem_singleton.1 isPart
      exact readable
  | array element induction =>
      rcases List.mem_cons.1 isPart with rfl | inside
      · exact readable
      · obtain ⟨⟨tokens, derives⟩, writable⟩ := readable
        rw [shapes, Shape.writable_append] at writable
        cases derives with
        | arrays derives =>
            cases derives with
            | brackets inner => exact induction ⟨⟨_, .arrays inner⟩, writable.1⟩ inside
  | mapping key value induction =>
      rcases List.mem_cons.1 isPart with rfl | inside
      · exact readable
      · obtain ⟨⟨tokens, derives⟩, writable⟩ := readable
        rw [shapes, Shape.writable_append, Shape.writable_append] at writable
        cases derives with
        | arrays derives => cases derives
        | mapping _ _ _ _ inner _ => exact induction ⟨⟨_, inner⟩, writable.1.2⟩ inside

theorem toList_render_mapping (key : String) (value : TypeName) :
    (mapping key value).render.toList = "mapping".toList ++ '(' ::
      (key.toList ++ ' ' :: ("->".toList ++ ' ' :: (value.render.toList ++ [')']))) := by
  have text : (mapping key value).render = "mapping(" ++ key ++ " -> " ++ value.render ++ ")" := rfl
  have opening : "mapping(".toList = "mapping".toList ++ ['('] := by decide
  have arrow : " -> ".toList = ' ' :: ("->".toList ++ [' ']) := by decide
  simp only [text, String.toList_append, opening, arrow, List.append_assoc, List.cons_append,
    List.nil_append]
  rfl

/-- The text of a type shows its tokens. -/
theorem renders_render {type : TypeName} (writable : Shape.Writable type.shapes)
    {more : List Char} {shapes : List Shape} (ends : ∀ stop ∈ more.head?, Lexeme.Separates stop)
    (renders : Renders more shapes) :
    Renders (type.render.toList ++ more) (type.shapes ++ shapes) := by
  induction type generalizing more shapes with
  | named name =>
      have spelled : (Shape.name name).Spelled := writable _ (by simp [TypeName.shapes])
      exact .token (spelled.endsBefore ends) renders
  | array element induction =>
      rw [TypeName.shapes, Shape.writable_append] at writable
      have brackets : Renders ('[' :: ']' :: more) (.sign .lbracket :: .sign .rbracket :: shapes) :=
        .sign rfl (fun _ => rfl) (.sign rfl (fun _ => rfl) renders)
      simpa [render, TypeName.shapes] using
        induction writable.1 (by simpa using Lexeme.separates_lbracket) brackets
  | mapping key value induction =>
      simp only [TypeName.shapes, Shape.writable_append, Shape.writable_cons] at writable
      obtain ⟨⟨⟨word, _, isKey, arrow, _⟩, inner⟩, _⟩ := writable
      have closed : Renders (value.render.toList ++ ')' :: more) _ :=
        induction inner (by simpa using Lexeme.separates_rparen) (.sign rfl (fun _ => rfl) renders)
      have pointed : Renders (_ ++ ' ' :: (value.render.toList ++ ')' :: more)) _ :=
        .token (arrow.endsBefore (by simpa using Lexeme.separates_space))
          (.blank (by decide) closed)
      have keyed := Renders.token (isKey.endsBefore (by simpa using Lexeme.separates_space))
        (.blank (c := ' ') (by decide) pointed)
      have opened : Renders ('(' :: _) (.sign .lparen :: _) := .sign rfl (fun _ => rfl) keyed
      have mapped := Renders.token (word.endsBefore (by simpa using Lexeme.separates_lparen)) opened
      simp only [toList_render_mapping, TypeName.shapes, List.append_assoc, List.cons_append,
        List.nil_append]
      exact mapped

theorem renders_commaSeparated {types : List TypeName}
    (writable : ∀ type ∈ types, Shape.Writable type.shapes) {more : List Char}
    {shapes : List Shape} (ends : ∀ stop ∈ more.head?, Lexeme.Separates stop)
    (renders : Renders more shapes) :
    Renders ((String.intercalate "," (types.map render)).toList ++ more)
      (Shape.commaSeparated (types.map TypeName.shapes) ++ shapes) := by
  induction types with
  | nil => simpa [Shape.commaSeparated] using renders
  | cons type types induction =>
      obtain ⟨first, rest⟩ := List.forall_mem_cons.1 writable
      cases types with
      | nil => simpa [Shape.commaSeparated] using renders_render first ends renders
      | cons next types =>
          have others : Renders (',' :: _) (.sign .comma :: _) :=
            .sign rfl (fun _ => rfl) (induction rest)
          have all := renders_render first (by simpa using Lexeme.separates_comma) others
          rw [List.map_cons, List.map_cons, String.intercalate_cons_cons, ← List.map_cons]
          simpa [Shape.commaSeparated] using all

/-! Reading types back. -/

theorem starts_shapes (type : TypeName) :
    ∃ first others, type.shapes = first :: others ∧ first.kind = .identifier := by
  induction type with
  | named name => exact ⟨_, _, rfl, rfl⟩
  | array element induction =>
      obtain ⟨first, others, starts, isName⟩ := induction
      exact ⟨first, _, by rw [shapes, starts]; rfl, isName⟩
  | mapping key value => exact ⟨_, _, rfl, rfl⟩

theorem Readable.parses {type : TypeName} (readable : type.Readable) {limit : Nat}
    (room : type.mappings ≤ limit) :
    Parser.Parses (.symbol .rparen) (Parser.typeName limit) 0 (type.shapes.map Shape.token)
      type where
  starts := by
    obtain ⟨first, others, starts, isName⟩ := type.starts_shapes
    have kind : first.token.kind = .identifier := isName
    exact ⟨first.token, others.map Shape.token, by rw [starts]; rfl, by simp [kind], by simp [kind]⟩
  succeeds next rest follows := by
    obtain ⟨tokens, derives⟩ := readable.derives
    have notOpening : next.kind ≠ .symbol .lbracket := by
      rcases follows with same | same <;> simp [same]
    exact Parser.typeWithin_shapes derives (by omega) (by omega) notOpening

/-- Types that are written with the same tokens between the commas are the same. -/
theorem eq_of_commaSeparated {types others : List TypeName}
    (readable : ∀ type ∈ types, type.Readable) (readableToo : ∀ type ∈ others, type.Readable)
    (same : Shape.commaSeparated (types.map shapes) = Shape.commaSeparated (others.map shapes)) :
    types = others := by
  -- Read back as a list, with as many levels as there are tokens, the same tokens give the same
  -- types.
  let limit := (Shape.commaSeparated (types.map shapes)).length
  have reads : Parser.Reads (Parser.typeName limit) fun _ _ => True :=
    (Parser.reads_typeWithin limit limit).mono fun _ _ _ => trivial
  have read {list : List TypeName} (each : ∀ type ∈ list, type.Readable)
      (length : (Shape.commaSeparated (list.map shapes)).length = limit) :
      ∃ comma, Parser.closedList .rparen (Parser.typeName limit)
          ⟨(Shape.commaSeparated (list.map shapes)).map Shape.token ++
            [(Shape.sign .rparen).token], 0⟩ = .ok (list, comma) ⟨[], 0⟩ := by
    have joined := joined_commaSeparated (list.map shapes)
    rw [List.map_map] at joined
    have parses : ∀ type ∈ list, Parser.Parses (.symbol .rparen) (Parser.typeName limit) 0
        ((List.map Shape.token ∘ shapes) type) (id type) := by
      intro type member
      have fits := joined.length_le (List.mem_map_of_mem member)
      have mapped := type.mappings_le_length_shapes
      simp only [Function.comp_apply, List.length_map] at fits
      exact (each type member).parses (by omega)
    have all := @Parser.closedList_eq _ _ _ _ _ _ _ _ [] _ _ _ reads (Shape.kind_sign .rparen)
      (by simp) joined parses
    rw [List.map_id] at all
    exact ⟨_, all⟩
  obtain ⟨comma, first⟩ := read readable rfl
  obtain ⟨comma', second⟩ := read readableToo (by rw [← same])
  rw [same, second] at first
  cases first
  rfl

theorem render_inj {type other : TypeName} (readable : type.Readable)
    (readableToo : other.Readable) (same : type.render = other.render) : type = other := by
  have first := renders_render readable.writable (by simp) .nil
  have second := renders_render readableToo.writable (by simp) .nil
  rw [List.append_nil, List.append_nil] at first second
  rw [same] at first
  have shapes := first.unique second
  have alone := @eq_of_commaSeparated [type] [other] (by simpa using readable)
    (by simpa using readableToo) (by simpa [Shape.commaSeparated] using shapes)
  exact List.singleton_injective alone

end TypeName

namespace Function

theorem renders_signature {function : Function}
    (isName : (Shape.name function.name.name).Spelled)
    (readable : ∀ type ∈ function.parameters.map Parameter.type, type.Readable) :
    Renders function.signature.toList (.name function.name.name :: .sign .lparen ::
      (Shape.commaSeparated ((function.parameters.map Parameter.type).map TypeName.shapes) ++
        [.sign .rparen])) := by
  have closed : Renders [')'] [.sign .rparen] := .sign rfl (fun _ => rfl) .nil
  have types := TypeName.renders_commaSeparated (fun type member => (readable type member).writable)
    (by simpa using Lexeme.separates_rparen) closed
  have opened : Renders ('(' :: _) (.sign .lparen :: _) := .sign rfl (fun _ => rfl) types
  have named := Renders.token (isName.endsBefore (by simpa using Lexeme.separates_lparen)) opened
  simpa [signature, Shape.name, Function.comp_def] using named

theorem signature_eq_iff {function other : Function}
    (isName : (Shape.name function.name.name).Spelled)
    (readable : ∀ type ∈ function.parameters.map Parameter.type, type.Readable)
    (isNameToo : (Shape.name other.name.name).Spelled)
    (readableToo : ∀ type ∈ other.parameters.map Parameter.type, type.Readable) :
    function.signature = other.signature ↔ function.name.name = other.name.name ∧
      function.parameters.map Parameter.type = other.parameters.map Parameter.type := by
  constructor
  · intro same
    have first := renders_signature isName readable
    rw [same] at first
    have shapes := first.unique (renders_signature isNameToo readableToo)
    obtain ⟨name, rest⟩ := List.cons.inj shapes
    have types := (List.append_inj' (List.cons.inj rest).2 rfl).1
    exact ⟨congrArg Shape.text name, TypeName.eq_of_commaSeparated readable readableToo types⟩
  · rintro ⟨name, types⟩
    have texts := congrArg (List.map TypeName.render) types
    rw [List.map_map, List.map_map] at texts
    change function.name.name ++ "(" ++ String.intercalate ","
      (function.parameters.map (TypeName.render ∘ Parameter.type)) ++ ")" = _
    rw [name, texts]
    rfl

end Function

/-! The types and names of programs that have been read. -/

theorem TypedName.readable {tokens : List Token} {name : Ident} {type : TypeName}
    (typed : TypedName tokens name type) (writable : Shape.Writable (tokens.map Token.shape)) :
    type.Readable := by
  have written := typed.writable writable
  obtain ⟨_, _, derives⟩ := typed
  simp only [Ident.typedShapes, Shape.writable_cons] at written
  exact ⟨⟨_, derives⟩, written.2.2⟩

structure Contract.Readable (contract : Contract) : Prop where
  types : ∀ type ∈ contract.types, type.Readable
  names : ∀ function ∈ contract.functions, (Shape.name function.name.name).Spelled

theorem Contract.Readable.stateVar {contract : Contract} (readable : contract.Readable)
    {var : StateVar} (member : var ∈ contract.stateVars) : var.type.Readable := by
  refine readable.types var.type ?_
  simp only [Contract.types, List.mem_append]
  exact .inl (.inl (List.mem_map_of_mem member))

theorem Contract.Readable.fields {contract : Contract} (readable : contract.Readable)
    {struct : Struct} (member : struct ∈ contract.structs) :
    ∀ field ∈ struct.fields, field.type.Readable := by
  intro field isField
  refine readable.types field.type ?_
  simp only [Contract.types, List.mem_append, List.mem_flatMap]
  exact .inr ⟨struct, member, List.mem_map_of_mem isField⟩

theorem Contract.Readable.parameters {contract : Contract} (readable : contract.Readable)
    {function : Function} (member : function ∈ contract.functions) :
    ∀ type ∈ function.parameters.map Parameter.type, type.Readable := by
  intro type isType
  refine readable.types type ?_
  simp only [Contract.types, List.mem_append, List.mem_flatMap]
  exact .inl (.inr ⟨function, member, isType⟩)

theorem Parameter.Derives.exists_typedName {tokens : List Token} {parameter : Parameter}
    (derives : Derives tokens parameter) :
    ∃ part, TypedName part parameter.name parameter.type ∧ part ⊆ tokens := by
  cases derives with
  | required typed => exact ⟨_, typed, List.Subset.refl _⟩
  | optional typed => exact ⟨_, typed, List.subset_append_left _ _⟩

/-- Each type of a contract stands behind a name in its tokens. -/
theorem Members.exists_typedName {tokens : List Token} {vars : List StateVar}
    {functions : List Function} {structs : List Struct} {name : Ident}
    (members : Members tokens vars functions structs) {type : TypeName}
    (isType : type ∈ (⟨name, vars, functions, structs⟩ : Contract).types) :
    ∃ part name, TypedName part name type ∧ part ⊆ tokens := by
  have find {member : Parser.Member}
      (isMember : member ∈ Parser.Member.all ⟨name, vars, functions, structs⟩) :=
    Parser.Member.exists_of_mem_all members isMember
  simp only [Contract.types, List.mem_append, List.mem_flatMap, List.mem_map] at isType
  rcases isType with
    (⟨var, isVar, rfl⟩ | ⟨function, isFunction, parameter, isParameter, rfl⟩) |
      ⟨struct, isStruct, field, isField, rfl⟩
  · obtain ⟨_, derives, within⟩ := @find (.stateVar var) (by simp [Parser.Member.all, isVar])
    cases derives with
    | stateVar derives =>
        obtain ⟨typed, _, _⟩ := derives
        exact ⟨_, _, typed, List.Subset.trans (List.subset_append_left _ _) within⟩
  · obtain ⟨_, derives, within⟩ :=
      @find (.function function) (by simp [Parser.Member.all, isFunction])
    cases derives with
    | function derives =>
        obtain ⟨_, _, _, separated, _, _, _, _⟩ := derives
        obtain ⟨_, derives, inside⟩ := separated.exists_of_mem isParameter
        obtain ⟨part, typed, first⟩ := derives.exists_typedName
        refine ⟨part, _, typed, fun token isToken => within ?_⟩
        simp [inside (first isToken)]
  · obtain ⟨_, derives, within⟩ := @find (.struct struct) (by simp [Parser.Member.all, isStruct])
    cases derives with
    | struct derives =>
        obtain ⟨_, _, _, repeated, _⟩ := derives
        obtain ⟨_, ⟨typed, _⟩, inside⟩ := repeated.exists_of_mem isField
        refine ⟨_, _, typed, fun token isToken => within ?_⟩
        simp [inside (List.mem_append_left _ isToken)]

theorem Contract.Derives.readable {tokens : List Token} {contract : Contract}
    (derives : Derives tokens contract) (writable : Shape.Writable (tokens.map Token.shape)) :
    contract.Readable := by
  obtain @⟨_, _, _, _, _, _, _, _, _, _, _, members, _⟩ := derives
  simp only [List.map_cons, List.map_append, Shape.writable_cons, Shape.writable_append] at writable
  obtain ⟨_, _, _, inside, _⟩ := writable
  constructor
  · intro type isType
    obtain ⟨part, _, typed, within⟩ := members.exists_typedName isType
    exact typed.readable (inside.of_subset (List.map_subset _ within))
  · intro function isFunction
    obtain ⟨part, derives, within⟩ := @Parser.Member.exists_of_mem_all _ _ _ _ members ⟨"", .start⟩
      (.function function) (by simpa [Parser.Member.all] using isFunction)
    have written := derives.writable (inside.of_subset (List.map_subset _ within))
    simp only [Parser.Member.shapes, Parser.shapes_function, Shape.writable_cons] at written
    exact written.2.1

theorem Program.readable_of_parse {limits : Limits} {source : String} {program : Program}
    (parsed : parse limits source = .ok program) :
    ∀ contract ∈ program.contracts, contract.Readable := by
  obtain ⟨_, stream, lexed, after, ran⟩ := Parser.runSource_eq_ok_iff.1 parsed
  obtain ⟨written, last, rfl, going⟩ := Token.lex_eq_ok lexed
  obtain ⟨repeated, _⟩ := Parser.derives_of_program going rfl ran
  intro contract member
  obtain ⟨part, derives, within⟩ := repeated.exists_of_mem member
  exact derives.readable ((Token.writable_of_lex lexed).of_subset (List.map_subset _ within))

/-! Declarations of a type that is given as a text. -/

namespace TypeName.Site

/-- A source that declares a type, given as a text. -/
def source (site : Site) (type : String) : String :=
  Shape.write site.front ++ " " ++ type ++ " " ++ Shape.write site.back

example : source .field "uint8[]" = "contract A \x7b struct S \x7b a : uint8[] ; \x7d \x7d" := by
  decide +kernel

theorem renders_source (site : Site) {type : TypeName} (writable : Shape.Writable type.shapes) :
    Renders (site.source type.render).toList (site.contract type).shapes := by
  have separates : Lexeme.Separates ' ' := Lexeme.separates_space
  have behind := renders_render writable (by simpa using separates)
    (.blank (by decide) (Token.renders_write site.writable_back))
  have all := Token.renders_write_append site.writable_front (by simpa using separates)
    (.blank (by decide) behind)
  rw [shapes_contract]
  simpa [source] using all

theorem parse_source (site : Site) {type : TypeName} (readable : type.Readable) {limits : Limits}
    (short : (site.source type.render).utf8ByteSize ≤ limits.sourceBytes)
    (deep : type.shapes.length ≤ limits.depth) :
    ∃ again, Program.parse limits (site.source type.render) = .ok again ∧
      again.unplaced = ⟨[site.contract type]⟩ := by
  obtain ⟨⟨_, derives⟩, writable⟩ := readable
  obtain ⟨_, derives⟩ := site.derives_contract derives
  have program : Program.Derives (_ ++ []) ⟨[site.contract type]⟩ :=
    .mk (.cons derives .nil) (by simp)
  have renders : Renders (site.source type.render).toList
      (⟨[site.contract type]⟩ : Program).shapes := by
    simpa [Program.shapes] using site.renders_source writable
  have positive : 0 < type.shapes.length := by
    obtain ⟨_, _, starts, _⟩ := type.starts_shapes
    simp [starts]
  have room := type.mappings_le_length_shapes.trans deep
  have fits := site.fits_contract room fun _ => by omega
  obtain ⟨again, parsed, same⟩ := Program.parse_of_renders program renders (by simpa using fits)
    short
  refine ⟨again, parsed, same.trans ?_⟩
  simp [Program.unplaced, Program.relocate, relocate_contract]

end TypeName.Site

namespace Program

/-- A type that occurs in a program is read again where its text declares a type. Functions have one
signature, and so one selector, if their names and the types of their parameters are the same, and
different signatures otherwise. -/
theorem types_and_signatures_canonical {limits limits' : Limits} {source source' : String}
    {program program' : Program} (parsed : parse limits source = .ok program)
    (parsed' : parse limits' source' = .ok program') :
    (∀ contract ∈ program.contracts, ∀ type ∈ contract.types, ∀ part ∈ type.parts,
      ∃ tokens last, Token.lex part.render = .ok (tokens ++ [last]) ∧ last.kind = .eof ∧
        ∀ (site : TypeName.Site) (other : Limits),
          (site.source part.render).utf8ByteSize ≤ other.sourceBytes →
          tokens.length ≤ other.depth →
            ∃ again, parse other (site.source part.render) = .ok again ∧
              again.unplaced = ⟨[site.contract part]⟩) ∧
    ∀ contract ∈ program.contracts, ∀ function ∈ contract.functions,
      ∀ contract' ∈ program'.contracts, ∀ function' ∈ contract'.functions,
        (function.signature = function'.signature ↔ function.name.name = function'.name.name ∧
          function.parameters.map Parameter.type = function'.parameters.map Parameter.type) ∧
        (function.name.name = function'.name.name →
          function.parameters.map Parameter.type = function'.parameters.map Parameter.type →
            Selector.ofSignature function.signature =
              Selector.ofSignature function'.signature) := by
  have readable := readable_of_parse parsed
  have readable' := readable_of_parse parsed'
  constructor
  · intro contract isContract type isType part isPart
    have readable := ((readable contract isContract).types type isType).part isPart
    have renders := TypeName.renders_render readable.writable (by simp) .nil
    rw [List.append_nil, List.append_nil] at renders
    obtain ⟨tokens, cursor, lexed, shapes⟩ := Token.lex_of_renders renders
    refine ⟨tokens, .endOfInput cursor, lexed, rfl, fun site other short deep => ?_⟩
    refine site.parse_source readable short ?_
    rwa [← shapes, List.length_map]
  · intro contract isContract function member contract' isContract' function' member'
    have first := readable contract isContract
    have second := readable' contract' isContract'
    have same := Function.signature_eq_iff (first.names function member) (first.parameters member)
      (second.names function' member') (second.parameters member')
    exact ⟨same, fun name types => congrArg Selector.ofSignature (same.2 ⟨name, types⟩)⟩

def registrySource : String :=
  "contract R \x7b seen: mapping(address->uint8[]); def put(a: uint8[], b: address) \x7b \x7d \x7d"

/-- The parameters have changed places. -/
def swappedSource : String :=
  "contract R \x7b def put(b: address, a: uint8[]) \x7b \x7d \x7d"

def put : Function :=
  ⟨⟨"put", ⟨1, 51⟩⟩, [⟨⟨"a", ⟨1, 55⟩⟩, .array (.named "uint8"), none⟩,
    ⟨⟨"b", ⟨1, 67⟩⟩, .named "address", none⟩], none, .none, []⟩

def registry : Program :=
  ⟨[⟨⟨"R", ⟨1, 10⟩⟩,
    [⟨⟨"seen", ⟨1, 14⟩⟩, .mapping "address" (.array (.named "uint8")), none⟩], [put], []⟩]⟩

def putSwapped : Function :=
  ⟨⟨"put", ⟨1, 18⟩⟩, [⟨⟨"b", ⟨1, 22⟩⟩, .named "address", none⟩,
    ⟨⟨"a", ⟨1, 34⟩⟩, .array (.named "uint8"), none⟩], none, .none, []⟩

def swapped : Program :=
  ⟨[⟨⟨"R", ⟨1, 10⟩⟩, [], [putSwapped], []⟩]⟩

theorem put_signature_canonical :
    parse ⟨96, 9⟩ registrySource = .ok registry ∧ parse ⟨64, 1⟩ swappedSource = .ok swapped ∧
      (∃ tokens last, Token.lex "mapping(address -> uint8[])" = .ok (tokens ++ [last]) ∧
        last.kind = .eof ∧ ∀ (site : TypeName.Site) (other : Limits),
          (site.source "mapping(address -> uint8[])").utf8ByteSize ≤ other.sourceBytes →
          tokens.length ≤ other.depth →
            ∃ again, parse other (site.source "mapping(address -> uint8[])") = .ok again ∧
              again.unplaced = ⟨[site.contract (.mapping "address" (.array (.named "uint8")))]⟩) ∧
      put.signature ≠ putSwapped.signature := by
  have parsed : parse ⟨96, 9⟩ registrySource = .ok registry := by cbv
  have parsed' : parse ⟨64, 1⟩ swappedSource = .ok swapped := by cbv
  obtain ⟨types, signatures⟩ := types_and_signatures_canonical parsed parsed'
  have type := types _ (List.mem_singleton_self _) (.mapping "address" (.array (.named "uint8")))
    (by simp [Contract.types]) _ (List.mem_cons_self ..)
  have same := (signatures _ (List.mem_singleton_self _) put (List.mem_singleton_self _) _
    (List.mem_singleton_self _) putSwapped (List.mem_singleton_self _)).1
  refine ⟨parsed, parsed', type, fun equal => ?_⟩
  have different :
      put.parameters.map Parameter.type ≠ putSwapped.parameters.map Parameter.type := by
    simp [put, putSwapped]
  exact different (same.1 equal).2

end Program

end Covenant
