import Covenant.Proofs.Rules.WellFormed
import Covenant.Proofs.Sequence
import Covenant.Rules.Program

/-! Checking accepts exactly the well-formed programs, and every error it reports is one that the
program has. Each check is shown to judge its own rule. The rules of a block are judged along the
statements that occur in it. -/

namespace Covenant

/-- What is accepted has the property, and what is rejected has the reported error. -/
structure Judges (verdict : Verdict) (Accepted : Prop) (Fault : Located SemanticError → Prop) :
    Prop where
  accepted : verdict = .ok () → Accepted
  rejected : ∀ error, verdict = .error error → Fault error

namespace Judges

variable {first next : Verdict} {Accepted After : Prop} {Fault : Located SemanticError → Prop}

theorem pure (accepted : Accepted) : Judges (Pure.pure ()) Accepted Fault :=
  ⟨fun _ => accepted, fun _ rejected => nomatch rejected⟩

theorem throw {error : Located SemanticError} (fault : Fault error) :
    Judges (MonadExcept.throw error) Accepted Fault where
  accepted returned := nomatch returned
  rejected other rejected := by
    cases rejected
    exact fault

theorem mono {Weaker : Prop} {Wider : Located SemanticError → Prop}
    (judges : Judges first Accepted Fault) (accepted : Accepted → Weaker)
    (faults : ∀ error, Fault error → Wider error) : Judges first Weaker Wider :=
  ⟨fun returned => accepted (judges.accepted returned),
    fun error rejected => faults error (judges.rejected error rejected)⟩

theorem seq (before : Judges first Accepted Fault) (after : Judges next After Fault) :
    Judges (first >>= fun _ => next) (Accepted ∧ After) Fault where
  accepted returned := by
    obtain ⟨_, one, two⟩ := bind_eq_ok_iff.1 returned
    exact ⟨before.accepted one, after.accepted two⟩
  rejected error rejected := by
    rcases bind_eq_error_iff.1 rejected with one | ⟨_, _, two⟩
    · exact before.rejected error one
    · exact after.rejected error two

theorem ite {condition : Prop} [Decidable condition] {error : Located SemanticError}
    (fault : ¬condition → Fault error) :
    Judges (if condition then Pure.pure () else MonadExcept.throw error) condition Fault := by
  by_cases holds : condition
  · rw [if_pos holds]
    exact pure holds
  · rw [if_neg holds]
    exact throw (fault holds)

theorem forM {Item : Type} {check : Item → Verdict} {Holds : Item → Prop} {items : List Item}
    (judges : ∀ item ∈ items, Judges (check item) (Holds item) Fault) :
    Judges (items.forM check) (∀ item ∈ items, Holds item) Fault := by
  induction items with
  | nil => exact pure (by simp)
  | cons item items induction =>
      change Judges (check item >>= fun _ => items.forM check) _ Fault
      refine ((judges item (by simp)).seq (induction fun other member =>
        judges other (by simp [member]))).mono ?_ (fun _ fault => fault)
      rintro ⟨head, tail⟩
      exact List.forall_mem_cons.2 ⟨head, tail⟩

end Judges

namespace Expr

theorem checkAll_eq_forM (exprs : List Expr) : checkAll exprs = exprs.forM check := by
  induction exprs with
  | nil => rfl
  | cons expr exprs induction =>
      rw [checkAll, induction]
      rfl

theorem checkProperties_eq_forM (properties : List (String × Expr)) :
    checkProperties properties = (properties.map Prod.snd).forM check := by
  induction properties with
  | nil => rfl
  | cons property properties induction =>
      rw [checkProperties, induction]
      rfl

/-- The part of `check` that looks at no part of the expression. -/
def checkSelf : Expr → Verdict
  | call _ (ident _ _) _ | call _ (member _ _ _) _ => pure ()
  | call _ callee _ => throw ⟨callee.pos, .notCallable callee.form⟩
  | tuple pos [] => throw ⟨pos, .emptyTuple⟩
  | _ => pure ()

theorem check_eq (expr : Expr) :
    expr.check = (do expr.checkSelf; expr.parts.forM check) := by
  cases expr with
  | literal | ident => rfl
  | unary | member => simp [check, checkSelf, parts]
  | binary | ternary | index => simp [check, checkSelf, parts]
  | call pos callee arguments =>
      cases callee <;> simp [check, checkSelf, parts, checkAll_eq_forM] <;> rfl
  | tuple pos elements => cases elements <;> simp [check, checkSelf, parts, checkAll_eq_forM]
  | array pos elements => simp [check, checkSelf, parts, checkAll_eq_forM]
  | object pos properties => simp [check, checkSelf, parts, checkProperties_eq_forM]

theorem judges_checkSelf (expr : Expr) : Judges expr.checkSelf expr.Formed expr.Fault := by
  cases expr with
  | call pos callee arguments =>
      cases callee with
      | ident | member => exact .pure trivial
      | literal | unary | binary | ternary | index | call | tuple | array | object =>
          exact .throw (.notCallable pos arguments id)
  | tuple pos elements =>
      cases elements with
      | nil => exact .throw (.emptyTuple pos)
      | cons element elements => exact .pure (List.cons_ne_nil element elements)
  | literal | ident | unary | binary | ternary | member | index | array | object =>
      exact .pure trivial

theorem wellFormed_of_parts {expr : Expr} (formed : expr.Formed)
    (parts : ∀ part ∈ expr.parts, part.WellFormed) : expr.WellFormed := by
  intro part contained
  cases contained with
  | self => exact formed
  | inside member inner => exact parts _ member part inner

theorem Violates.of_part {expr part : Expr} {error : Located SemanticError}
    (member : part ∈ expr.parts) (violates : part.Violates error) : expr.Violates error := by
  obtain ⟨inner, contained, fault⟩ := violates
  exact ⟨inner, .inside member contained, fault⟩

theorem judges_check (expr : Expr) : Judges expr.check expr.WellFormed expr.Violates := by
  induction expr using parts_induction with
  | step expr induction =>
      rw [check_eq]
      have self : Judges expr.checkSelf expr.Formed expr.Violates :=
        (judges_checkSelf expr).mono id fun _ fault => ⟨expr, .self expr, fault⟩
      have parts : Judges (expr.parts.forM check) (∀ part ∈ expr.parts, part.WellFormed)
          expr.Violates :=
        .forM fun part member => (induction part member).mono id fun _ => .of_part member
      exact (self.seq parts).mono (fun ⟨formed, inner⟩ => wellFormed_of_parts formed inner)
        fun _ fault => fault

theorem root_eq_ok {target : Expr} {name : String} (root : target.root = .ok name) :
    target.RootedAt name := by
  fun_induction Expr.root target with
  | case1 pos other =>
      cases root
      exact ⟨pos, .self _⟩
  | case2 pos base field induction =>
      obtain ⟨place, accesses⟩ := induction root
      exact ⟨place, .member pos field accesses⟩
  | case3 pos base key induction =>
      obtain ⟨place, accesses⟩ := induction root
      exact ⟨place, .index pos key accesses⟩
  | case4 => cases root

theorem root_eq_error {target : Expr} {error : Located SemanticError}
    (root : target.root = .error error) :
    ∃ core, target.Accesses core ∧ core.IsValue ∧ error = ⟨core.pos, .invalidTarget core.form⟩ := by
  fun_induction Expr.root target with
  | case1 => cases root
  | case2 pos base field induction =>
      obtain ⟨core, accesses, rest⟩ := induction root
      exact ⟨core, .member pos field accesses, rest⟩
  | case3 pos base key induction =>
      obtain ⟨core, accesses, rest⟩ := induction root
      exact ⟨core, .index pos key accesses, rest⟩
  | case4 target notIdent notMember notIndex =>
      cases root
      refine ⟨target, .self target, ?_, rfl⟩
      cases target with
      | ident pos name => exact (notIdent pos name rfl).elim
      | member pos base name => exact (notMember pos base name rfl).elim
      | index pos base key => exact (notIndex pos base key rfl).elim
      | literal | unary | binary | ternary | call | tuple | array | object => trivial

theorem judges_checkKeys {target : Expr} {name : String} (rooted : target.RootedAt name) :
    Judges target.checkKeys target.WellFormed target.Violates := by
  obtain ⟨place, accesses⟩ := rooted
  generalize found : ident place name = core at accesses
  induction accesses with
  | self core =>
      subst found
      exact .pure (wellFormed_of_parts trivial (by simp [parts]))
  | @member base core pos field _ induction =>
      refine (induction found).mono ?_ fun _ => .of_part (by simp [parts])
      intro inner
      exact wellFormed_of_parts trivial (by simpa [parts] using inner)
  | @index base core pos key _ induction =>
      have keyJudged : Judges key.check key.WellFormed (Expr.index pos base key).Violates :=
        (judges_check key).mono id fun _ => .of_part (by simp [parts])
      have baseJudged : Judges base.checkKeys base.WellFormed (Expr.index pos base key).Violates :=
        (induction found).mono id fun _ => .of_part (by simp [parts])
      refine (keyJudged.seq baseJudged).mono ?_ fun _ fault => fault
      rintro ⟨keyFormed, baseFormed⟩
      exact wellFormed_of_parts trivial (by simpa [parts] using ⟨baseFormed, keyFormed⟩)

end Expr

namespace Scope

def within (scope : Scope) (names : List String) : Scope :=
  { scope with counters := names ++ scope.counters }

/-- The scope of a function of a contract with these state variables. -/
structure Describes (scope : Scope) (declared : List String) (function : Function) : Prop where
  stateVars : ∀ name, scope.stateVars.contains name = true ↔ name ∈ declared
  named : scope.function = function.name.name
  returns : scope.returns = function.returns
  hasLoop : scope.hasLoop = function.body.any Stmt.isLoop

variable {scope : Scope} {declared : List String} {function : Function}

theorem Describes.within (describes : scope.Describes declared function) (names : List String) :
    (scope.within names).Describes declared function :=
  ⟨describes.stateVars, describes.named, describes.returns, describes.hasLoop⟩

theorem Describes.isVariable_within_iff (describes : scope.Describes declared function)
    {names : List String} {name : String} :
    (scope.within names).isVariable name = true ↔
      name ∈ declared ++ scope.counters ∨ name ∈ names := by
  simp only [isVariable, Scope.within, Bool.or_eq_true, List.contains_iff_mem, List.mem_append,
    describes.stateVars]
  tauto

end Scope

namespace Stmt

theorem checkAll_eq_forM (scope : Scope) (block : List Stmt) :
    checkAll scope block = block.forM (check scope) := by
  induction block with
  | nil => rfl
  | cons stmt block induction =>
      rw [checkAll, induction]
      rfl

/-- The part of `check` that looks at no part of the statement. -/
def checkSelf (scope : Scope) : Stmt → Verdict
  | assign _ assignment => checkAssign scope assignment
  | if_ _ condition _ _ | while_ _ condition _ => condition.check
  | for_ _ counter start bound increment _ => do
      start.check
      bound.check
      checkAssign (scope.within [counter.name]) increment
  | break_ pos => if scope.hasLoop then pure () else throw ⟨pos, .breakOutsideLoop⟩
  | continue_ pos => if scope.hasLoop then pure () else throw ⟨pos, .continueOutsideLoop⟩
  | return_ pos value => checkReturn scope pos value
  | expr pos value => checkAlone pos value

theorem check_eq (scope : Scope) (stmt : Stmt) :
    stmt.check scope =
      (do stmt.checkSelf scope; stmt.parts.forM (check (scope.within stmt.counters))) := by
  cases stmt with
  | if_ pos condition yes no =>
      cases no <;> simp [check, checkSelf, parts, checkAll_eq_forM, counters, Scope.within]
  | while_ | for_ =>
      simp [check, checkSelf, parts, checkAll_eq_forM, counters, Scope.within, Scope.enter]
  | assign | break_ | continue_ | return_ | expr => simp [check, checkSelf, parts]

section

variable {scope : Scope} {declared : List String} {function : Function}

theorem judges_checkAssign (describes : scope.Describes declared function) {stmt : Stmt}
    {assignment : Assignment} (made : assignment ∈ stmt.assignments)
    (target : assignment.target ∈ stmt.exprs) (value : assignment.value ∈ stmt.exprs) :
    Judges (checkAssign (scope.within stmt.counters) assignment)
      ((∃ name, assignment.target.RootedAt name ∧
          (name ∈ declared ++ scope.counters ∨ name ∈ stmt.counters)) ∧
        assignment.target.WellFormed ∧ assignment.value.WellFormed)
      (stmt.Fault (declared ++ scope.counters) function) := by
  rw [checkAssign]
  cases root : assignment.target.root with
  | error error =>
      obtain ⟨core, accesses, isValue, rfl⟩ := Expr.root_eq_error root
      exact .throw (.invalidTarget made accesses isValue)
  | ok name =>
      have rooted := Expr.root_eq_ok root
      change Judges (if (scope.within stmt.counters).isVariable name = true then _ else _) _ _
      by_cases isVariable : (scope.within stmt.counters).isVariable name = true
      · rw [if_pos isVariable]
        have keys : Judges assignment.target.checkKeys assignment.target.WellFormed
            (stmt.Fault (declared ++ scope.counters) function) :=
          (Expr.judges_checkKeys rooted).mono id fun _ => .expr target
        have assigned : Judges assignment.value.check assignment.value.WellFormed
            (stmt.Fault (declared ++ scope.counters) function) :=
          (Expr.judges_check assignment.value).mono id fun _ => .expr value
        refine (keys.seq assigned).mono ?_ fun _ fault => fault
        exact fun formed => ⟨⟨name, rooted, describes.isVariable_within_iff.1 isVariable⟩, formed⟩
      · rw [if_neg isVariable]
        rw [describes.isVariable_within_iff, not_or] at isVariable
        exact .throw (.undefinedVar made rooted isVariable.1 isVariable.2)

theorem judges_checkValue (type : ReturnType) (pos : Position) (value : Expr)
    (returns : function.returns = some type) :
    Judges (type.checkValue value) (type.Fits value)
      ((return_ pos (some value)).Fault declared function) := by
  cases value with
  | tuple place elements =>
      cases type with
      | single name => exact .ite fun misfit => .arity pos returns misfit
      | tuple names => exact .ite fun misfit => .arity pos returns misfit
  | literal | ident | unary | binary | ternary | member | index | call | array | object =>
      exact .pure trivial

theorem judges_checkReturn (describes : scope.Describes declared function) (pos : Position)
    (value : Option Expr) :
    Judges (checkReturn scope pos value)
      (∀ result ∈ value, result.WellFormed ∧
        ∃ type, function.returns = some type ∧ type.Fits result)
      ((return_ pos value).Fault (declared ++ scope.counters) function) := by
  cases value with
  | none => exact .pure (by simp)
  | some value =>
      rw [checkReturn, describes.returns, describes.named]
      cases returns : function.returns with
      | none => exact .throw (.unexpectedValue pos value returns)
      | some type =>
          have formed : Judges value.check value.WellFormed
              ((return_ pos (some value)).Fault (declared ++ scope.counters) function) :=
            (Expr.judges_check value).mono id fun _ => .expr (by simp [exprs])
          refine (formed.seq (judges_checkValue type pos value returns)).mono ?_ fun _ => id
          rintro ⟨wellFormed, fits⟩ result member
          obtain rfl := Option.some.inj member
          exact ⟨wellFormed, type, rfl, fits⟩

theorem judges_checkAlone (pos : Position) (value : Expr) :
    Judges (checkAlone pos value) (value.IsCall ∧ value.WellFormed)
      ((expr pos value).Fault declared function) := by
  cases value with
  | call place callee arguments =>
      have formed := Expr.judges_check (.call place callee arguments)
      refine formed.mono ?_ fun _ => .expr (by simp [exprs])
      exact fun formed => ⟨trivial, formed⟩
  | literal | ident | unary | binary | ternary | member | index | tuple | array | object =>
      exact .throw (.alone pos id)

theorem judges_checkSelf (describes : scope.Describes declared function) (stmt : Stmt) :
    Judges (stmt.checkSelf scope)
      (function.Allows declared scope.counters stmt)
      (stmt.Fault (declared ++ scope.counters) function) := by
  cases stmt with
  | assign pos assignment =>
      have judged := judges_checkAssign describes
        (show assignment ∈ (assign pos assignment).assignments by simp [assignments])
        (by simp [exprs]) (by simp [exprs])
      refine judged.mono ?_ fun _ fault => fault
      rintro ⟨rooted, target, value⟩
      exact {
        jumps := by simp
        targets := by simpa [assignments] using rooted
        results := by simp
        alone := by simp
        wellFormed := by simpa [exprs] using ⟨target, value⟩ }
  | if_ pos condition yes no =>
      refine (Expr.judges_check condition).mono ?_ fun _ => .expr (by simp [exprs])
      intro formed
      exact ⟨by simp, by simp [assignments], by simp, by simp, by simpa [exprs] using formed⟩
  | while_ pos condition body =>
      refine (Expr.judges_check condition).mono ?_ fun _ => .expr (by simp [exprs])
      intro formed
      exact ⟨by simp, by simp [assignments], by simp, by simp, by simpa [exprs] using formed⟩
  | for_ pos counter start bound increment body =>
      have first : Judges start.check start.WellFormed ((for_ pos counter start bound increment
          body).Fault (declared ++ scope.counters) function) :=
        (Expr.judges_check start).mono id fun _ => .expr (by simp [exprs])
      have last : Judges bound.check bound.WellFormed ((for_ pos counter start bound increment
          body).Fault (declared ++ scope.counters) function) :=
        (Expr.judges_check bound).mono id fun _ => .expr (by simp [exprs])
      have step := judges_checkAssign describes
        (show increment ∈ (for_ pos counter start bound increment body).assignments by
          simp [assignments]) (by simp [exprs]) (by simp [exprs])
      refine (first.seq (last.seq step)).mono ?_ fun _ fault => fault
      rintro ⟨startFormed, boundFormed, rooted, target, value⟩
      exact {
        jumps := by simp
        targets := by simpa [assignments] using rooted
        results := by simp
        alone := by simp
        wellFormed := by simpa [exprs] using ⟨startFormed, boundFormed, target, value⟩ }
  | break_ pos =>
      have judged : Judges ((break_ pos).checkSelf scope) (scope.hasLoop = true)
          ((break_ pos).Fault (declared ++ scope.counters) function) :=
        .ite fun outside => .break_ pos (by simpa [describes.hasLoop] using outside)
      refine judged.mono ?_ fun _ fault => fault
      intro inLoop
      rw [describes.hasLoop] at inLoop
      exact ⟨fun _ _ => inLoop, by simp [assignments], by simp, by simp, by simp [exprs]⟩
  | continue_ pos =>
      have judged : Judges ((continue_ pos).checkSelf scope) (scope.hasLoop = true)
          ((continue_ pos).Fault (declared ++ scope.counters) function) :=
        .ite fun outside => .continue_ pos (by simpa [describes.hasLoop] using outside)
      refine judged.mono ?_ fun _ fault => fault
      intro inLoop
      rw [describes.hasLoop] at inLoop
      exact ⟨fun _ _ => inLoop, by simp [assignments], by simp, by simp, by simp [exprs]⟩
  | return_ pos value =>
      refine (judges_checkReturn describes pos value).mono ?_ fun _ fault => fault
      intro results
      refine ⟨by simp, by simp [assignments], ?_, by simp, ?_⟩
      · rintro _ result ⟨⟩
        exact (results result rfl).2
      · intro result member
        exact (results result (Option.mem_toList.1 member)).1
  | expr pos value =>
      refine (judges_checkAlone pos value).mono ?_ fun _ fault => fault
      rintro ⟨isCall, formed⟩
      refine ⟨by simp, by simp [assignments], by simp, ?_, by simpa [exprs] using formed⟩
      rintro _ _ ⟨⟩
      exact isCall

/-- The check of a statement judges it together with the statements in its parts. -/
def Judged (declared : List String) (function : Function) (scope : Scope) (stmt : Stmt) : Prop :=
  Judges (stmt.check scope)
    (function.Allows declared scope.counters stmt ∧
      ∀ names inner, Occurs stmt.parts names inner →
        function.Allows declared (names ++ stmt.counters ++ scope.counters) inner)
    (fun error => stmt.Fault (declared ++ scope.counters) function error ∨
      ∃ names inner, Occurs stmt.parts names inner ∧
        inner.Fault (declared ++ (names ++ stmt.counters ++ scope.counters)) function error)

theorem judges_checkAll_of_judged {block : List Stmt}
    (judged : ∀ stmt ∈ block, Judged declared function scope stmt) :
    Judges (checkAll scope block)
      (∀ names stmt, Occurs block names stmt →
        function.Allows declared (names ++ scope.counters) stmt)
      (fun error => ∃ names stmt, Occurs block names stmt ∧
        stmt.Fault (declared ++ (names ++ scope.counters)) function error) := by
  rw [checkAll_eq_forM]
  refine (Judges.forM fun stmt member => (judged stmt member).mono id ?_).mono ?_
    fun _ fault => fault
  · rintro error (here | ⟨names, inner, occurs, fault⟩)
    · exact ⟨[], stmt, .here member, here⟩
    · exact ⟨_, inner, .inside member occurs, fault⟩
  · intro allowed names stmt occurs
    cases occurs with
    | here member => exact (allowed stmt member).1
    | inside member inner => exact (allowed _ member).2 _ stmt inner

theorem judged (describes : scope.Describes declared function) (stmt : Stmt) :
    Judged declared function scope stmt := by
  induction stmt using parts_induction generalizing scope with
  | step stmt induction =>
      rw [Judged, check_eq, ← checkAll_eq_forM]
      -- The statements in the parts see the counters of this statement as well.
      have inner := judges_checkAll_of_judged fun part member =>
        induction part member (describes.within stmt.counters)
      simp only [Scope.within, ← List.append_assoc] at inner
      simp only [← List.append_assoc]
      exact ((judges_checkSelf describes stmt).mono id fun _ => Or.inl).seq
        (inner.mono id fun _ => Or.inr)

theorem judges_checkAll (describes : scope.Describes declared function) (block : List Stmt) :
    Judges (checkAll scope block)
      (∀ names stmt, Occurs block names stmt →
        function.Allows declared (names ++ scope.counters) stmt)
      (fun error => ∃ names stmt, Occurs block names stmt ∧
        stmt.Fault (declared ++ (names ++ scope.counters)) function error) :=
  judges_checkAll_of_judged fun stmt _ => judged describes stmt

end

end Stmt

end Covenant
