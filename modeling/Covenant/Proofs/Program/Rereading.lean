import Covenant.Proofs.Program.Coupling
import Covenant.Proofs.Stmt.Rereading
import Mathlib

/-! The shapes that a program is printed with are read as the same program, with places of their
own. As many levels as there are tokens are enough for this, but the declarations need not share
these: a list of them is read with the levels that its members take one by one. -/

namespace Covenant

open Token (Shape)

/-! Parts of lists that derive. -/

section

variable {α : Type} {Item : List Token → α → Prop} {tokens : List Token} {value : α}
  {values : List α}

theorem Repeated.exists_of_mem (repeated : Repeated Item tokens values) (member : value ∈ values) :
    ∃ part, Item part value ∧ part ⊆ tokens := by
  induction repeated with
  | nil => cases member
  | @cons first _ _ _ item _ induction =>
      rcases List.mem_cons.1 member with rfl | member
      · exact ⟨first, item, List.subset_append_left _ _⟩
      · obtain ⟨part, derives, within⟩ := induction member
        exact ⟨part, derives, List.subset_append_of_subset_right _ within⟩

theorem Separated.exists_of_mem (separated : Separated Item tokens values)
    (member : value ∈ values) : ∃ part, Item part value ∧ part ⊆ tokens := by
  induction separated with
  | nil => cases member
  | @last tokens _ item =>
      obtain rfl := List.mem_singleton.1 member
      exact ⟨tokens, item, List.Subset.refl _⟩
  | @cons first _ _ _ _ item _ _ induction =>
      rcases List.mem_cons.1 member with rfl | member
      · exact ⟨first, item, List.subset_append_left _ _⟩
      · obtain ⟨part, derives, within⟩ := induction member
        exact ⟨part, derives,
          List.subset_append_of_subset_right _ (List.subset_cons_of_subset _ within)⟩

end

/-! Levels with which a declaration is read from its shapes. -/

structure Parameter.Fits (levels : Nat) (parameter : Parameter) : Prop where
  type : parameter.type.mappings ≤ levels
  default : ∀ value ∈ parameter.default, value.shapes.length ≤ levels

structure Function.Fits (levels : Nat) (function : Function) : Prop where
  parameters : ∀ parameter ∈ function.parameters, parameter.Fits levels
  body : (function.body.flatMap Stmt.shapes).length + 1 ≤ levels

structure Contract.Fits (levels : Nat) (contract : Contract) : Prop where
  stateVars : ∀ var ∈ contract.stateVars, var.type.mappings ≤ levels
  structs : ∀ struct ∈ contract.structs, ∀ field ∈ struct.fields, field.type.mappings ≤ levels
  functions : ∀ function ∈ contract.functions, function.Fits levels

namespace Parser

section

variable {limit depth : Nat} {tokens rest : List Token}

theorem typedName_shapes {name : Ident} {type : TypeName} (derives : TypedName tokens name type)
    (room : depth + type.mappings ≤ limit) {next : Token} (other : next.kind ≠ .symbol .lbracket) :
    typedName limit ⟨(name.typedShapes type).map Shape.token ++ next :: rest, depth⟩ =
      .ok (name.relocate fun _ => .start, type) ⟨next :: rest, depth⟩ := by
  obtain ⟨_, _, derives⟩ := derives
  simp only [Ident.typedShapes, List.map_cons, List.cons_append]
  rw [typedName, bind_of_ok (ident_name _), bind_of_ok (consume_sign .colon)]
  exact bind_of_ok (typeWithin_shapes derives (by omega) room other) _

theorem mappings_le_length_typedShapes (name : Ident) (type : TypeName) :
    type.mappings ≤ (name.typedShapes type).length := by
  have fits := type.mappings_le_length_shapes
  simp only [Ident.typedShapes, List.length_cons]
  omega

theorem storageLocation?_shapes (location : Option StorageLocation) :
    storageLocation? ⟨(location.map fun location => Shape.word location.keyword).toList.map
        Shape.token ++ (Shape.sign .semicolon).token :: rest, depth⟩ =
      .ok location ⟨(Shape.sign .semicolon).token :: rest, depth⟩ := by
  rcases location with _ | _ | _ <;> rfl

theorem stateVar_shapes {var : StateVar} (derives : StateVar.Derives tokens var)
    (room : depth + var.type.mappings ≤ limit) :
    stateVar limit ⟨var.shapes.map Shape.token ++ rest, depth⟩ =
      .ok (var.relocate fun _ => .start) ⟨rest, depth⟩ := by
  obtain @⟨_, _, _, name, type, location, typed⟩ := derives
  simp only [StateVar.shapes, List.map_append, List.append_assoc, List.map_singleton,
    List.singleton_append]
  have place := @storageLocation?_shapes depth rest location
  obtain ⟨next, behind, isNext, other⟩ : ∃ next behind,
      (location.map fun location => Shape.word location.keyword).toList.map Shape.token ++
        (Shape.sign .semicolon).token :: rest = next :: behind ∧
      next.kind ≠ .symbol .lbracket := by
    cases location with
    | none => exact ⟨_, _, rfl, by simp⟩
    | some location => exact ⟨_, _, rfl, by simp⟩
  rw [isNext] at place ⊢
  rw [stateVar, bind_of_ok (typedName_shapes typed room other)]
  change (storageLocation? >>= _) _ = _
  rw [bind_of_ok place, bind_of_ok (consume_sign .semicolon)]
  rfl

theorem field_shapes {field : Field} (derives : Field.Derives tokens field)
    (room : depth + field.type.mappings ≤ limit) :
    Parser.field limit ⟨field.shapes.map Shape.token ++ rest, depth⟩ =
      .ok (field.relocate fun _ => .start) ⟨rest, depth⟩ := by
  obtain @⟨_, _, name, type, typed, _⟩ := derives
  simp only [Field.shapes, List.map_append, List.append_assoc, List.map_singleton,
    List.singleton_append]
  rw [Parser.field, bind_of_ok (typedName_shapes typed room (by simp))]
  exact bind_of_ok (consume_sign .semicolon) _

theorem struct_shapes {struct : Struct} (derives : Struct.Derives tokens struct)
    (room : ∀ field ∈ struct.fields, depth + field.type.mappings ≤ limit) :
    Parser.struct limit ⟨struct.shapes.map Shape.token ++ rest, depth⟩ =
      .ok (struct.relocate fun _ => .start) ⟨rest, depth⟩ := by
  obtain @⟨_, name, _, _, _, fields, _, _, _, repeated, _⟩ := derives
  simp only [Struct.shapes, Stmt.braced, List.map_append, List.map_cons, List.map_nil,
    List.append_assoc, List.cons_append, List.nil_append]
  have passes : Reads (field limit) fun passed _ => passed ≠ [] :=
    (@advancing_field ⟨id, [], [], limit, 0⟩).passes
  have read : ∀ field ∈ fields, ∀ rest,
      Parser.field limit ⟨field.shapes.map Shape.token ++ rest, depth⟩ =
        .ok (field.relocate fun _ => .start) ⟨rest, depth⟩ := by
    intro field member rest
    obtain ⟨_, derives, _⟩ := repeated.exists_of_mem member
    exact field_shapes derives (room field member)
  have starts (field : Field) : ∃ first others, field.shapes = first :: others ∧
      first.kind ≠ .eof ∧ first.kind ≠ .symbol .rbrace :=
    ⟨.name field.name.name, _, rfl, by simp [Shape.name], by simp [Shape.name]⟩
  have inner := many_eq_of_closed passes starts read (Shape.kind_sign .rbrace) rest
  rw [Parser.struct, bind_of_ok (consume_word .struct), bind_of_ok (ident_name _),
    bind_of_ok (consume_sign .lbrace), bind_of_ok inner, bind_of_ok (consume_sign .rbrace)]
  rfl

/-! Functions. -/

variable {levels : Nat}

theorem parses_parameter {parameter : Parameter} (derives : Parameter.Derives tokens parameter)
    (fits : parameter.Fits levels) (room : depth + levels ≤ limit) :
    Parses (.symbol .rparen) (Parser.parameter limit) depth (parameter.shapes.map Shape.token)
      (parameter.relocate fun _ => .start) where
  starts := ⟨(Shape.name parameter.name.name).token, _, rfl, by simp, by simp⟩
  succeeds next rest follows := by
    have notOpening : next.kind ≠ .symbol .lbracket := by
      rcases follows with same | same <;> simp [same]
    have notSign : next.kind ≠ .symbol .assign := by
      rcases follows with same | same <;> simp [same]
    have ends : EndsExpr next.kind := endsExpr_of_follows (by simp [closers]) follows
    obtain ⟨inType, inDefault⟩ := fits
    cases derives with
    | required typed =>
        simp only [Parameter.shapes, List.append_nil]
        rw [Parser.parameter,
          bind_of_ok (typedName_shapes typed (by dsimp only at inType; omega) notOpening)]
        exact bind_of_ok (take_cons_of_ne notSign) _
    | @optional _ _ _ _ _ value typed _ valueDerives =>
        have valueFits := inDefault value rfl
        simp only [Parameter.shapes, List.map_append, List.map_cons, List.append_assoc,
          List.cons_append]
        rw [Parser.parameter,
          bind_of_ok (typedName_shapes typed (by dsimp only at inType; omega) (by simp))]
        change (take _ >>= _) _ = _
        rw [bind_of_ok (take_sign .assign), if_pos rfl,
          bind_of_ok (expr_shapes valueDerives (by omega) ends rest)]
        rfl

theorem parameters_shapes {parameters : List Parameter}
    (separated : Separated Parameter.Derives tokens parameters)
    (fits : ∀ parameter ∈ parameters, parameter.Fits levels) (room : depth + levels ≤ limit)
    (rest : List Token) :
    ∃ comma, closedList .rparen (parameter limit)
        ⟨(Shape.commaSeparated (parameters.map Parameter.shapes)).map Shape.token ++
          (Shape.sign .rparen).token :: rest, depth⟩ =
      .ok (parameters.map (Parameter.relocate fun _ => .start), comma) ⟨rest, depth⟩ := by
  have reads : Reads (parameter limit) fun _ _ => True := reads_parameter.mono fun _ _ _ => trivial
  have joined := joined_commaSeparated (parameters.map Parameter.shapes)
  rw [List.map_map] at joined
  refine ⟨_, closedList_eq reads (Shape.kind_sign .rparen) (by simp) joined ?_⟩
  intro parameter member
  obtain ⟨_, derives, _⟩ := separated.exists_of_mem member
  exact parses_parameter derives (fits parameter member) room

theorem names_shapes (names : List String) :
    ∃ comma, closedList .rparen ident
        ⟨(Shape.commaSeparated (names.map fun name => [.name name])).map Shape.token ++
          (Shape.sign .rparen).token :: rest, depth⟩ =
      .ok (names.map fun name => ⟨name, .start⟩, comma) ⟨rest, depth⟩ := by
  have reads : Reads ident fun _ _ => True := reads_ident.mono fun _ _ _ => trivial
  have joined := joined_commaSeparated (names.map fun name => [.name name])
  rw [List.map_map] at joined
  refine ⟨_, closedList_eq reads (Shape.kind_sign .rparen) (by simp) joined fun name _ => ?_⟩
  exact ⟨⟨_, _, rfl, by simp, by simp⟩, fun next rest _ => ident_name name⟩

theorem returnType?_shapes (returns : Option ReturnType) :
    returnType? ⟨(returns.elim [] ReturnType.shapes).map Shape.token ++
        (Shape.sign .lbrace).token :: rest, depth⟩ =
      .ok returns ⟨(Shape.sign .lbrace).token :: rest, depth⟩ := by
  match returns with
  | none => exact bind_of_ok (take_cons_of_ne (by simp)) _
  | some (.single name) =>
      simp only [Option.elim, ReturnType.shapes, List.map_cons, List.map_nil, List.cons_append,
        List.nil_append]
      rw [returnType?, bind_of_ok (take_sign .arrow), if_pos rfl,
        bind_of_ok (take_cons_of_ne (by simp))]
      exact bind_of_ok (ident_name name) _
  | some (.tuple names) =>
      simp only [Option.elim, ReturnType.shapes, List.map_append, List.map_cons, List.map_nil,
        List.cons_append, List.nil_append, List.append_assoc]
      obtain ⟨comma, read⟩ := @names_shapes depth ((Shape.sign .lbrace).token :: rest) names
      rw [returnType?, bind_of_ok (take_sign .arrow), if_pos rfl, bind_of_ok (take_sign .lparen),
        if_pos rfl, bind_of_ok read]
      simp [pure, EStateM.pure, Function.comp_def]

/-- Modifiers that have not been given before are added one after another. -/
theorem iterate_modifierRound_eq {words : List Modifier} {before : Modifiers} {next : Token}
    (distinct : words.Nodup) (new : ∀ modifier ∈ words, before.has modifier = false)
    (ends : modifier? next.kind = none) :
    iterate modifierRound before
        ⟨(words.map fun modifier => Shape.word modifier.keyword).map Shape.token ++ next :: rest,
          depth⟩ =
      .ok (words.foldl Modifiers.add before) ⟨next :: rest, depth⟩ := by
  induction words generalizing before with
  | nil =>
      refine progressive_modifierRound.iterate_of_done ?_
      rw [List.map_nil, List.map_nil, List.nil_append, modifierRound, bind_of_ok peek_cons, ends]
      rfl
  | cons modifier words induction =>
      obtain ⟨other, distinct⟩ := List.nodup_cons.1 distinct
      obtain ⟨first, new⟩ := List.forall_mem_cons.1 new
      have round : ∀ rest, modifierRound before
          ⟨(Shape.word modifier.keyword).token :: rest, depth⟩ =
            .ok (.yield (before.add modifier)) ⟨rest, depth⟩ := by
        intro rest
        rw [modifierRound, bind_of_ok peek_cons,
          modifier?_eq_some_iff.2 (Shape.kind_word modifier.keyword)]
        simp only [first]
        exact bind_of_ok (advance_cons (by simp)) _
      rw [List.map_cons, List.map_cons, List.cons_append,
        progressive_modifierRound.iterate_of_yield (round _)]
      refine induction distinct fun word member => ?_
      rw [Modifiers.has_add, new word member, Bool.or_false, decide_eq_false_iff_not]
      rintro rfl
      exact other member

theorem foldl_add_filter_has (modifiers : Modifiers) :
    ([.payable, .view, .pure, .onlyOwner].filter modifiers.has).foldl Modifiers.add .none =
      modifiers := by
  obtain ⟨payable, view, pure, onlyOwner⟩ := modifiers
  cases payable <;> cases view <;> cases pure <;> cases onlyOwner <;> rfl

theorem modifiers_shapes (modifiers : Modifiers) {next : Token}
    (ends : modifier? next.kind = none) :
    Parser.modifiers ⟨modifiers.shapes.map Shape.token ++ next :: rest, depth⟩ =
      .ok modifiers ⟨next :: rest, depth⟩ := by
  have distinct : ([.payable, .view, .pure, .onlyOwner].filter modifiers.has).Nodup :=
    List.Nodup.filter _ (by decide)
  rw [Parser.modifiers, Modifiers.shapes, iterate_modifierRound_eq distinct (by simp) ends,
    foldl_add_filter_has]

/-- The first token after the modifiers. -/
theorem returns_starts (returns : Option ReturnType) :
    ∃ next others, (returns.elim [] ReturnType.shapes).map Shape.token ++
        (Shape.sign .lbrace).token :: rest = next :: others ∧ modifier? next.kind = none := by
  rcases returns with _ | _ | _ <;> exact ⟨_, _, rfl, rfl⟩

theorem shapes_function (function : Function) :
    function.shapes = .word .def_ :: .name function.name.name :: .sign .lparen ::
      (Shape.commaSeparated (function.parameters.map Parameter.shapes) ++ .sign .rparen ::
        (function.modifiers.shapes ++ (function.returns.elim [] ReturnType.shapes ++
          .sign .lbrace :: (function.body.flatMap Stmt.shapes ++ [.sign .rbrace])))) := by
  obtain ⟨name, parameters, returns, modifiers, body⟩ := function
  cases returns <;> simp [Function.shapes, Stmt.braced]

theorem function_shapes {function : Function} (derives : Function.Derives tokens function)
    (fits : function.Fits levels) (room : depth + levels ≤ limit) :
    Parser.function limit ⟨function.shapes.map Shape.token ++ rest, depth⟩ =
      .ok (function.relocate fun _ => .start) ⟨rest, depth⟩ := by
  obtain @⟨_, name, _, _, _, _, _, _, parameters, modifiers, returns, body, _, _, _, separated, _,
    _, _, bodyDerives⟩ := derives
  obtain ⟨inParameters, inBody⟩ := fits
  simp only [shapes_function, List.map_append, List.map_cons, List.map_nil, List.append_assoc,
    List.cons_append, List.nil_append]
  have bodyRoom : Room limit limit depth ((body.flatMap Stmt.shapes).length + 2) :=
    ⟨by omega, by dsimp only at inBody; omega⟩
  have readBody :=
    @blockWithin_shapes limit limit depth rest body (rereads_of_derives bodyDerives) bodyRoom
  have readReturns := @returnType?_shapes depth
    ((body.flatMap Stmt.shapes).map Shape.token ++ (Shape.sign .rbrace).token :: rest) returns
  obtain ⟨next, others, isNext, ends⟩ := @returns_starts
    ((body.flatMap Stmt.shapes).map Shape.token ++ (Shape.sign .rbrace).token :: rest) returns
  -- Modifiers are read until a token comes that is none, so this token has to be in sight.
  rw [isNext] at readReturns ⊢
  obtain ⟨comma, readParameters⟩ := parameters_shapes separated inParameters room
    (modifiers.shapes.map Shape.token ++ next :: others)
  rw [Parser.function, bind_of_ok (consume_word .def_), bind_of_ok (ident_name _),
    bind_of_ok (consume_sign .lparen), bind_of_ok readParameters]
  change (Parser.modifiers >>= _) _ = _
  rw [bind_of_ok (modifiers_shapes modifiers ends), bind_of_ok readReturns, block,
    bind_of_ok readBody]
  rfl

/-! Contracts. -/

namespace Member

def shapes : Member → List Shape
  | stateVar value => value.shapes
  | function value => value.shapes
  | struct value => value.shapes

/-- The members of a contract in the order in which they are printed. -/
def all (contract : Contract) : List Member :=
  contract.stateVars.map stateVar ++ contract.structs.map struct ++ contract.functions.map function

theorem exists_of_mem_all {vars : List StateVar} {functions : List Function}
    {structs : List Struct} (members : Members tokens vars functions structs) {name : Ident}
    {member : Member} (isMember : member ∈ all ⟨name, vars, functions, structs⟩) :
    ∃ part, Derives part member ∧ part ⊆ tokens := by
  have extend {first rest : List Token} (found : ∃ part, Derives part member ∧ part ⊆ rest) :
      ∃ part, Derives part member ∧ part ⊆ first ++ rest := by
    obtain ⟨part, derives, within⟩ := found
    exact ⟨part, derives, List.subset_append_of_subset_right _ within⟩
  simp only [all, List.mem_append, List.mem_map] at isMember
  induction members with
  | nil => simp at isMember
  | @stateVar first _ var _ _ _ derives _ induction =>
      simp only [List.exists_mem_cons_iff] at isMember
      rcases isMember with ((rfl | isVar) | isStruct) | isFunction
      · exact ⟨first, .stateVar derives, List.subset_append_left _ _⟩
      · exact extend (induction (.inl (.inl isVar)))
      · exact extend (induction (.inl (.inr isStruct)))
      · exact extend (induction (.inr isFunction))
  | @function first _ function _ _ _ derives _ induction =>
      simp only [List.exists_mem_cons_iff] at isMember
      rcases isMember with (isVar | isStruct) | (rfl | isFunction)
      · exact extend (induction (.inl (.inl isVar)))
      · exact extend (induction (.inl (.inr isStruct)))
      · exact ⟨first, .function derives, List.subset_append_left _ _⟩
      · exact extend (induction (.inr isFunction))
  | @struct first _ struct _ _ _ derives _ induction =>
      simp only [List.exists_mem_cons_iff] at isMember
      rcases isMember with (isVar | (rfl | isStruct)) | isFunction
      · exact extend (induction (.inl (.inl isVar)))
      · exact ⟨first, .struct derives, List.subset_append_left _ _⟩
      · exact extend (induction (.inl (.inr isStruct)))
      · exact extend (induction (.inr isFunction))

theorem starts (member : Member) : ∃ first others, member.shapes = first :: others ∧
    first.kind ≠ .eof ∧ first.kind ≠ .symbol .rbrace := by
  cases member with
  | stateVar var => exact ⟨.name var.name.name, _, rfl, by simp [Shape.name], by simp [Shape.name]⟩
  | function => exact ⟨.word .def_, _, rfl, by simp [Shape.word], by simp [Shape.word]⟩
  | struct => exact ⟨.word .struct, _, rfl, by simp [Shape.word], by simp [Shape.word]⟩

end Member

theorem member_shapes {contract : Contract} (fits : contract.Fits levels)
    (room : depth + levels ≤ limit) {member : Member} (isMember : member ∈ Member.all contract)
    (derives : Member.Derives tokens member) :
    Parser.member limit ⟨member.shapes.map Shape.token ++ rest, depth⟩ =
      .ok (member.relocate fun _ => .start) ⟨rest, depth⟩ := by
  obtain ⟨inVars, inStructs, inFunctions⟩ := fits
  cases derives with
  | @stateVar var derives =>
      have varFits := inVars var (by simpa [Member.all] using isMember)
      exact bind_of_ok (stateVar_shapes derives (by omega)) _
  | @struct struct derives =>
      have fieldFits := inStructs struct (by simpa [Member.all] using isMember)
      refine bind_of_ok (struct_shapes derives fun field isField => ?_) _
      exact (Nat.add_le_add_left (fieldFits field isField) depth).trans room
  | @function function derives =>
      have functionFits := inFunctions function (by simpa [Member.all] using isMember)
      exact bind_of_ok (function_shapes derives functionFits room) _

theorem shapes_contract (contract : Contract) :
    contract.shapes = .word .contract :: .name contract.name.name :: .sign .lbrace ::
      ((Member.all contract).flatMap Member.shapes ++ [.sign .rbrace]) := by
  simp [Contract.shapes, Stmt.braced, Member.all, List.flatMap_append, List.flatMap_map,
    Member.shapes]

/-- Taken apart by sort, the members of a contract are those it has been put together from. -/
theorem filterMap_relocate_all (move : Position → Position) (contract : Contract) :
    (⟨contract.name.relocate move,
      ((Member.all contract).map (Member.relocate move)).filterMap Member.stateVar?,
      ((Member.all contract).map (Member.relocate move)).filterMap Member.function?,
      ((Member.all contract).map (Member.relocate move)).filterMap Member.struct?⟩ : Contract) =
        contract.relocate move := by
  simp [Contract.relocate, Member.all, Function.comp_def, Member.relocate, Member.stateVar?,
    Member.function?, Member.struct?]

theorem contract_of_members {contract : Contract}
    (read : ∀ member ∈ Member.all contract, ∀ rest,
      Parser.member limit ⟨member.shapes.map Shape.token ++ rest, depth⟩ =
        .ok (member.relocate fun _ => .start) ⟨rest, depth⟩) :
    Parser.contract limit ⟨contract.shapes.map Shape.token ++ rest, depth⟩ =
      .ok (contract.relocate fun _ => .start) ⟨rest, depth⟩ := by
  simp only [shapes_contract, List.map_append, List.map_cons, List.map_nil, List.append_assoc,
    List.cons_append, List.nil_append]
  have passes : Reads (member limit) fun passed _ => passed ≠ [] :=
    (@advancing_member ⟨id, [], [], limit, 0⟩).passes
  have inner := many_eq_of_closed passes Member.starts read (Shape.kind_sign .rbrace) rest
  rw [Parser.contract, bind_of_ok (consume_word .contract), bind_of_ok (ident_name _),
    bind_of_ok (consume_sign .lbrace), bind_of_ok inner, bind_of_ok (consume_sign .rbrace),
    ← filterMap_relocate_all]
  rfl

theorem contract_shapes {contract : Contract} (derives : Contract.Derives tokens contract)
    (fits : contract.Fits levels) (room : depth + levels ≤ limit) :
    Parser.contract limit ⟨contract.shapes.map Shape.token ++ rest, depth⟩ =
      .ok (contract.relocate fun _ => .start) ⟨rest, depth⟩ := by
  obtain @⟨_, name, _, _, _, vars, functions, structs, _, _, _, members, _⟩ := derives
  apply contract_of_members
  intro member isMember rest
  obtain ⟨_, derives, _⟩ := Member.exists_of_mem_all members isMember
  exact member_shapes fits room isMember derives

theorem program_of_contracts {program : Program} (nonempty : program.contracts ≠ [])
    (read : ∀ contract ∈ program.contracts, ∀ rest,
      Parser.contract limit ⟨contract.shapes.map Shape.token ++ rest, 0⟩ =
        .ok (contract.relocate fun _ => .start) ⟨rest, 0⟩)
    {last : Token} (ends : last.kind = .eof) :
    Parser.program limit ⟨program.shapes.map Shape.token ++ [last], 0⟩ =
      .ok (program.relocate fun _ => .start) ⟨[last], 0⟩ := by
  have starts (contract : Contract) : ∃ first others, contract.shapes = first :: others ∧
      first.kind ≠ .eof ∧ first.kind ≠ .eof :=
    ⟨.word .contract, _, rfl, by simp [Shape.word], by simp [Shape.word]⟩
  have all := many_eq_of_closed (passes_contract limit) starts read ends []
  have ended : consume .eof ⟨[last], 0⟩ = .ok last ⟨[last], 0⟩ := @consume_eof ⟨[last], 0⟩ ends
  rw [Parser.program, Program.shapes, bind_of_ok all, bind_of_ok ended,
    if_neg (by simpa using nonempty)]
  rfl

theorem program_shapes {program : Program} (derives : Program.Derives tokens program)
    (fits : ∀ contract ∈ program.contracts, contract.Fits limit) {last : Token}
    (ends : last.kind = .eof) :
    Parser.program limit ⟨program.shapes.map Shape.token ++ [last], 0⟩ =
      .ok (program.relocate fun _ => .start) ⟨[last], 0⟩ := by
  obtain @⟨contracts, repeated, nonempty⟩ := derives
  apply program_of_contracts nonempty ?_ ends
  intro contract member rest
  obtain ⟨_, derives, _⟩ := repeated.exists_of_mem member
  exact contract_shapes derives (fits contract member) (by omega)

end

end Parser

/-! The tokens of a declaration are enough levels for it. -/

theorem Parameter.fits_of_length_le {parameter : Parameter} {levels : Nat}
    (short : parameter.shapes.length ≤ levels) : parameter.Fits levels := by
  obtain ⟨name, type, default⟩ := parameter
  have inType := Parser.mappings_le_length_typedShapes name type
  simp only [shapes, List.length_append] at short
  refine ⟨by dsimp only; omega, fun value isDefault => ?_⟩
  obtain rfl := Option.mem_def.1 isDefault
  simp only [List.length_cons] at short
  omega

theorem Function.fits_of_length_le {function : Function} {levels : Nat}
    (short : function.shapes.length ≤ levels) : function.Fits levels := by
  simp only [Parser.shapes_function, List.length_append, List.length_cons] at short
  refine ⟨fun parameter member => Parameter.fits_of_length_le ?_, by omega⟩
  have joined := joined_commaSeparated (function.parameters.map Parameter.shapes)
  rw [List.map_map] at joined
  have inside := joined.length_le (List.mem_map_of_mem member)
  simp only [Function.comp_apply, List.length_map] at inside
  omega

theorem Contract.fits_of_length_le {contract : Contract} {levels : Nat}
    (short : contract.shapes.length ≤ levels) : contract.Fits levels := by
  simp only [Parser.shapes_contract, List.length_append, List.length_cons] at short
  have inside {member : Parser.Member} (isMember : member ∈ Parser.Member.all contract) :
      member.shapes.length ≤ levels :=
    (length_le_flatMap Parser.Member.shapes isMember).trans (by omega)
  constructor
  · intro var isVar
    have varFits := @inside (.stateVar var) (by simp [Parser.Member.all, isVar])
    have inType := Parser.mappings_le_length_typedShapes var.name var.type
    simp only [Parser.Member.shapes, StateVar.shapes, List.length_append] at varFits
    omega
  · intro struct isStruct field isField
    have structFits := @inside (.struct struct) (by simp [Parser.Member.all, isStruct])
    have fieldFits := length_le_flatMap Field.shapes isField
    have inType := Parser.mappings_le_length_typedShapes field.name field.type
    simp only [Parser.Member.shapes, Struct.shapes, Stmt.braced, List.length_append,
      List.length_cons] at structFits
    simp only [Field.shapes, List.length_append] at fieldFits
    omega
  · intro function isFunction
    exact Function.fits_of_length_le
      (@inside (.function function) (by simp [Parser.Member.all, isFunction]))

theorem Program.fits_of_length_le {program : Program} {levels : Nat}
    (short : program.shapes.length ≤ levels) :
    ∀ contract ∈ program.contracts, contract.Fits levels := by
  intro contract member
  exact Contract.fits_of_length_le
    ((length_le_flatMap Contract.shapes member).trans short)

end Covenant
