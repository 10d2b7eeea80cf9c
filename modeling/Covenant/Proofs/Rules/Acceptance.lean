import Covenant.Proofs.Rules.Checking

/-! The programs that the rules accept are the well-formed ones. -/

namespace Covenant

theorem TypeName.isSupported_iff {type : TypeName} : type.isSupported = true ↔ type.Supported := by
  constructor
  · intro supported
    match type with
    | .named name => exact .scalar (List.contains_iff_mem.1 supported)
    | .array (.named name) => exact .array (List.contains_iff_mem.1 supported)
    | .array (.array element) | .array (.mapping key value) => cases supported
    | .mapping key value => exact .mapping key value
  · intro supported
    cases supported with
    | scalar member => exact List.contains_iff_mem.2 member
    | array member => exact List.contains_iff_mem.2 member
    | mapping key value => rfl

theorem TypeName.judges_check (type : TypeName) (pos : Position) :
    Judges (type.check pos) type.Supported
      fun error => ¬type.Supported ∧ error = ⟨pos, .unsupportedType type⟩ := by
  have judged : Judges (type.check pos) (type.isSupported = true)
      fun error => ¬type.Supported ∧ error = ⟨pos, .unsupportedType type⟩ :=
    .ite fun unsupported => ⟨fun supported => unsupported (isSupported_iff.2 supported), rfl⟩
  exact judged.mono isSupported_iff.1 fun _ fault => fault

namespace Contract

theorem hasOwner_iff {contract : Contract} : contract.hasOwner = true ↔ contract.HasOwner := by
  have isNamed_iff (type : TypeName) : type.isNamed "address" = true ↔ type = .named "address" := by
    cases type <;> simp [TypeName.isNamed]
  simp [hasOwner, HasOwner, isNamed_iff]

theorem declare_cases {contract : Contract} {before after : List StateVar} {var : StateVar}
    {names : Std.TreeSet String} (split : contract.stateVars = before ++ var :: after)
    (known : ∀ name, names.contains name = true ↔ name ∈ before.map fun var => var.name.name) :
    (var.declare names = .ok (names.insert var.name.name) ∧ var.type.Supported ∧
        var.name.name ∉ before.map fun var => var.name.name) ∨
      ∃ error, var.declare names = .error error ∧ contract.Violates error := by
  have member : var ∈ contract.stateVars := by simp [split]
  rw [StateVar.declare]
  cases typed : var.type.check var.name.pos with
  | error error =>
      obtain ⟨unsupported, rfl⟩ := (var.type.judges_check var.name.pos).rejected error typed
      exact .inr ⟨_, rfl, .varType member unsupported⟩
  | ok checked =>
      have supported := (var.type.judges_check var.name.pos).accepted typed
      change (if names.contains var.name.name = true then _ else _) = _ ∧ _ ∨
        ∃ error, (if names.contains var.name.name = true then _ else _) = _ ∧ _
      by_cases repeated : names.contains var.name.name = true
      · obtain ⟨other, earlier, same⟩ := List.mem_map.1 ((known _).1 repeated)
        rw [if_pos repeated]
        exact .inr ⟨_, rfl, .duplicate split ⟨other, earlier, same⟩⟩
      · rw [if_neg repeated]
        exact .inl ⟨rfl, supported, fun earlier => repeated ((known _).2 earlier)⟩

theorem declareAll_cases {contract : Contract} {before after : List StateVar}
    {names : Std.TreeSet String} (split : contract.stateVars = before ++ after)
    (known : ∀ name, names.contains name = true ↔ name ∈ before.map fun var => var.name.name)
    (distinct : (before.map fun var => var.name.name).Nodup) :
    (∃ result, after.foldlM StateVar.declare names = .ok result ∧
        (∀ name, result.contains name = true ↔ name ∈ contract.stateVarNames) ∧
        contract.stateVarNames.Nodup ∧ ∀ var ∈ after, var.type.Supported) ∨
      ∃ error, after.foldlM StateVar.declare names = .error error ∧ contract.Violates error := by
  -- `names` holds the names of the variables in `before`, which are distinct.
  induction after generalizing before names with
  | nil =>
      rw [List.append_nil] at split
      refine .inl ⟨names, rfl, ?_, ?_, by simp⟩
      · simpa only [stateVarNames, split] using known
      · simpa only [stateVarNames, split] using distinct
  | cons var after induction =>
      rw [List.foldlM_cons]
      rcases declare_cases split known with ⟨declared, supported, fresh⟩ | ⟨error, declared, fault⟩
      · rw [declared]
        have knownNext (name : String) : (names.insert var.name.name).contains name = true ↔
            name ∈ (before ++ [var]).map fun var => var.name.name := by
          simp only [Std.TreeSet.contains_insert, Bool.or_eq_true, beq_iff_eq,
            Std.LawfulEqCmp.compare_eq_iff_eq, known, List.map_append, List.map_cons, List.map_nil,
            List.mem_append, List.mem_singleton]
          rw [or_comm, @eq_comm _ name]
        have distinctNext : ((before ++ [var]).map fun var => var.name.name).Nodup := by
          rw [List.map_append, List.nodup_append]
          refine ⟨distinct, by simp, ?_⟩
          rintro name member other last rfl
          simp only [List.map_cons, List.map_nil, List.mem_singleton] at last
          exact fresh (last ▸ member)
        rcases induction (by simp [split]) knownNext distinctNext with
          ⟨result, folded, contains, nodup, types⟩ | failed
        · exact .inl ⟨result, folded, contains, nodup, List.forall_mem_cons.2 ⟨supported, types⟩⟩
        · exact .inr failed
      · rw [declared]
        exact .inr ⟨error, rfl, fault⟩

theorem stateNames_cases (contract : Contract) :
    (∃ names, contract.stateNames = .ok names ∧
        (∀ name, names.contains name = true ↔ name ∈ contract.stateVarNames) ∧
        contract.stateVarNames.Nodup ∧ ∀ var ∈ contract.stateVars, var.type.Supported) ∨
      ∃ error, contract.stateNames = .error error ∧ contract.Violates error :=
  declareAll_cases (List.nil_append _).symm (by simp) (by simp)

end Contract

namespace Function

variable {contract : Contract} {function : Function}

theorem judges_checkHead (member : function ∈ contract.functions) :
    Judges (function.checkHead contract.hasOwner)
      ((function.isConstructor = true → function.returns = none) ∧
        (function.modifiers.onlyOwner = true → contract.HasOwner) ∧
        ¬(function.modifiers.payable = true ∧
          (function.modifiers.view = true ∨ function.modifiers.pure = true)))
      contract.Violates := by
  rw [checkHead]
  by_cases returns : (function.isConstructor && function.returns.isSome) = true
  · rw [if_pos returns]
    simp only [Bool.and_eq_true, Option.isSome_iff_ne_none] at returns
    exact .throw (.constructorReturns member returns.1 returns.2)
  rw [if_neg returns]
  by_cases ownerless : (function.modifiers.onlyOwner && !contract.hasOwner) = true
  · rw [if_pos ownerless]
    simp only [Bool.and_eq_true, Bool.not_eq_true', ← Bool.not_eq_true,
      Contract.hasOwner_iff] at ownerless
    exact .throw (.missingOwner member ownerless.1 ownerless.2)
  rw [if_neg ownerless]
  by_cases conflict : (function.modifiers.payable &&
      (function.modifiers.view || function.modifiers.pure)) = true
  · rw [if_pos conflict]
    simp only [Bool.and_eq_true, Bool.or_eq_true] at conflict
    exact .throw (.mutability member conflict.1 conflict.2)
  rw [if_neg conflict]
  refine .pure ⟨?_, ?_, by simpa using conflict⟩
  · intro isConstructor
    simpa [isConstructor] using returns
  · intro onlyOwner
    simpa [onlyOwner, Contract.hasOwner_iff] using ownerless

theorem judges_checkParameter {parameter : Parameter} (member : function ∈ contract.functions)
    (inside : parameter ∈ function.parameters) :
    Judges parameter.check
      (parameter.type.Supported ∧ ∀ value ∈ parameter.default, value.WellFormed)
      contract.Violates := by
  rw [Parameter.check]
  have typed : Judges (parameter.type.check parameter.name.pos) parameter.type.Supported
      contract.Violates := by
    refine (parameter.type.judges_check parameter.name.pos).mono id ?_
    rintro _ ⟨unsupported, rfl⟩
    exact .parameterType member inside unsupported
  refine typed.seq ?_
  cases default : parameter.default with
  | none => exact .pure (by simp)
  | some value =>
      refine (Expr.judges_check value).mono (by simp) fun _ => .default member inside default

theorem describes_scope {names : Std.TreeSet String} {declared : List String}
    (contains : ∀ name, names.contains name = true ↔ name ∈ declared) :
    (function.scope names).Describes declared function :=
  ⟨contains, rfl, rfl, rfl⟩

theorem judges_check {names : Std.TreeSet String} (member : function ∈ contract.functions)
    (contains : ∀ name, names.contains name = true ↔ name ∈ contract.stateVarNames) :
    Judges (function.check contract.hasOwner names) (function.WellFormed contract)
      contract.Violates := by
  have body : Judges (Stmt.checkAll (function.scope names) function.body)
      (∀ counters stmt, Stmt.Occurs function.body counters stmt →
        function.Allows contract.stateVarNames counters stmt) contract.Violates := by
    have describes : (function.scope names).Describes contract.stateVarNames function :=
      describes_scope contains
    have judged := Stmt.judges_checkAll describes function.body
    simp only [scope, List.append_nil] at judged
    refine judged.mono id ?_
    rintro error ⟨counters, stmt, occurs, fault⟩
    exact .stmt member occurs fault
  have parameters := Judges.forM fun parameter inside => judges_checkParameter member inside
  refine ((judges_checkHead member).seq (parameters.seq body)).mono ?_ fun _ fault => fault
  rintro ⟨⟨returns, owner, mutability⟩, parametersFormed, allowed⟩
  exact {
    constructor_returns := returns
    owner := owner
    mutability := mutability
    types := fun parameter inside => (parametersFormed parameter inside).1
    defaults := fun parameter inside => (parametersFormed parameter inside).2
    body := allowed }

end Function

namespace Expr

theorem Fault.not_formed {expr : Expr} {error : Located SemanticError} (fault : expr.Fault error) :
    ¬expr.Formed := by
  cases fault with
  | notCallable pos arguments uncallable => exact uncallable
  | emptyTuple pos => exact fun nonempty => nonempty rfl

theorem Violates.not_wellFormed {expr : Expr} {error : Located SemanticError}
    (violates : expr.Violates error) : ¬expr.WellFormed := by
  obtain ⟨part, contained, fault⟩ := violates
  exact fun wellFormed => fault.not_formed (wellFormed part contained)

/-- An expression that is no access is reached from a target instead of a variable. -/
theorem Accesses.not_rootedAt {target core : Expr} {name : String} (accesses : target.Accesses core)
    (isValue : core.IsValue) : ¬target.RootedAt name := by
  rintro ⟨pos, rooted⟩
  induction accesses with
  | self core => cases rooted <;> exact isValue
  | member place field _ induction =>
      cases rooted with
      | member _ _ inner => exact induction isValue inner
  | index place key _ induction =>
      cases rooted with
      | index _ _ inner => exact induction isValue inner

theorem RootedAt.unique {target : Expr} {name other : String} (first : target.RootedAt name)
    (second : target.RootedAt other) : name = other := by
  obtain ⟨pos, accesses⟩ := first
  obtain ⟨place, others⟩ := second
  generalize found : ident pos name = core at accesses
  induction accesses with
  | self core =>
      subst found
      cases others
      rfl
  | member place field _ induction =>
      cases others with
      | member _ _ inner => exact induction inner found
  | index place key _ induction =>
      cases others with
      | index _ _ inner => exact induction inner found

end Expr

theorem Stmt.Fault.not_allowed {assignable : List String} {function : Function} {stmt : Stmt}
    {error : Located SemanticError} (fault : stmt.Fault assignable function error) :
    ¬stmt.Allowed assignable function.returns (function.body.any Stmt.isLoop) := by
  intro allowed
  cases fault with
  | break_ pos outside => exact Bool.false_ne_true (outside ▸ allowed.jumps pos (.inl rfl))
  | continue_ pos outside => exact Bool.false_ne_true (outside ▸ allowed.jumps pos (.inr rfl))
  | invalidTarget made accesses isValue =>
      obtain ⟨name, rooted, _⟩ := allowed.targets _ made
      exact accesses.not_rootedAt isValue rooted
  | undefinedVar made rooted undeclared uncounted =>
      obtain ⟨name, found, declared | counted⟩ := allowed.targets _ made
      · exact undeclared (rooted.unique found ▸ declared)
      · exact uncounted (rooted.unique found ▸ counted)
  | unexpectedValue pos value returns =>
      obtain ⟨type, expected, _⟩ := allowed.results pos value rfl
      exact Option.some_ne_none type (expected.symm.trans returns)
  | arity pos returns misfit =>
      obtain ⟨type, expected, fits⟩ := allowed.results pos _ rfl
      obtain rfl := Option.some.inj (expected.symm.trans returns)
      exact misfit fits
  | alone pos notCall => exact notCall (allowed.alone pos _ rfl)
  | expr member violates => exact violates.not_wellFormed (allowed.wellFormed _ member)

namespace Contract

theorem Violates.not_wellFormed {contract : Contract} {error : Located SemanticError}
    (violates : contract.Violates error) : ¬contract.WellFormed := by
  intro wellFormed
  cases violates with
  | varType member unsupported => exact unsupported (wellFormed.types _ member)
  | @duplicate before after var split repeated =>
      obtain ⟨other, earlier, same⟩ := repeated
      have distinct := wellFormed.distinct
      rw [stateVarNames, split, List.map_append, List.nodup_append] at distinct
      exact distinct.2.2 _ (List.mem_map_of_mem earlier) _ (by simp) same
  | constructorReturns member isConstructor returns =>
      exact returns ((wellFormed.functions _ member).constructor_returns isConstructor)
  | missingOwner member onlyOwner ownerless =>
      exact ownerless ((wellFormed.functions _ member).owner onlyOwner)
  | mutability member payable reads =>
      exact (wellFormed.functions _ member).mutability ⟨payable, reads⟩
  | parameterType member inside unsupported =>
      exact unsupported ((wellFormed.functions _ member).types _ inside)
  | default member inside default violates =>
      exact violates.not_wellFormed ((wellFormed.functions _ member).defaults _ inside _ default)
  | stmt member occurs fault =>
      exact fault.not_allowed ((wellFormed.functions _ member).body _ _ occurs)

theorem judges_check (contract : Contract) :
    Judges contract.check contract.WellFormed contract.Violates := by
  rw [check]
  rcases contract.stateNames_cases with
    ⟨names, declared, contains, distinct, types⟩ | ⟨error, declared, violates⟩
  · rw [declared]
    have functions := Judges.forM fun function member => Function.judges_check member contains
    exact functions.mono (fun wellFormed => ⟨distinct, types, wellFormed⟩) fun _ fault => fault
  · rw [declared]
    exact .throw violates

end Contract

namespace Program

theorem judges_check (program : Program) :
    Judges program.check program.WellFormed program.Violates :=
  .forM fun contract member =>
    contract.judges_check.mono id fun _ violates => ⟨contract, member, violates⟩

theorem Violates.not_wellFormed {program : Program} {error : Located SemanticError}
    (violates : program.Violates error) : ¬program.WellFormed := by
  obtain ⟨contract, member, violates⟩ := violates
  exact fun wellFormed => violates.not_wellFormed (wellFormed contract member)

/-- Exactly the well-formed programs are accepted. An error that is reported is one that the program
has, at the place where it has it, and no well-formed program has one. -/
theorem check_accepts_exactly_wellFormed (program : Program) :
    (program.check = .ok () ↔ program.WellFormed) ∧
      (∀ error, program.check = .error error → program.Violates error) ∧
      (∀ error, program.Violates error → ¬program.WellFormed) := by
  refine ⟨⟨program.judges_check.accepted, ?_⟩, program.judges_check.rejected,
    fun _ violates => violates.not_wellFormed⟩
  intro wellFormed
  cases checked : program.check with
  | ok result => rfl
  | error error =>
      exact ((program.judges_check.rejected error checked).not_wellFormed wellFormed).elim

end Program

end Covenant
