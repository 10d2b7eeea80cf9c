import Covenant.Program.Parser
import Covenant.Proofs.Expr.Reading
import Covenant.Proofs.Program.Grammar

/-! Whatever the routines for types, statements and declarations accept, the grammar derives. -/

namespace Covenant

variable {α : Type}

theorem Separated.of_joined {Item : List Token → α → Prop} {parts : List (List Token × α)}
    {comma : Bool} {tokens : List Token} (items : ∀ part ∈ parts, Item part.1 part.2)
    (joined : Joined (parts.map Prod.fst) comma tokens) :
    Separated Item tokens (parts.map Prod.snd) := by
  generalize written : parts.map Prod.fst = segments at joined
  induction joined generalizing parts with
  | nil =>
      obtain rfl := List.map_eq_nil_iff.1 written
      exact .nil
  | last segment =>
      obtain ⟨part, rfl, rfl⟩ := List.map_eq_singleton_iff.1 written
      exact .last (items part (by simp))
  | cons segment isComma joined induction =>
      obtain ⟨part, others, rfl, rfl, othersWritten⟩ := List.map_eq_cons_iff.1 written
      obtain ⟨first, remaining⟩ := List.forall_mem_cons.1 items
      exact .cons first isComma (induction remaining othersWritten)

theorem Separated.map {β : Type} {Item : List Token → β → Prop} {change : α → β}
    {tokens : List Token} {values : List α}
    (separated : Separated (fun tokens value => Item tokens (change value)) tokens values) :
    Separated Item tokens (values.map change) := by
  induction separated with
  | nil => exact .nil
  | last item => exact .last item
  | cons item isComma _ induction => exact .cons item isComma induction

namespace Parser

/-! Lists. -/

theorem reads_manyOf {item : Parser α} {closing : Token.Kind} {All : List Token → List α → Prop}
    (none : All [] [])
    (reads : Reads item fun passed value =>
      ∀ rest values, All rest values → All (passed ++ rest) (value :: values)) :
    Reads (many closing item) All := by
  -- What has been read so far can be put in front of anything that is still to come.
  let Open (before : List Token) (items : List α) : Prop :=
    ∀ rest values, All rest values → All (before ++ rest) (items.reverse ++ values)
  have stop : ∀ before items, Open before items → All before items.reverse := by
    intro before items continues
    simpa using continues [] [] none
  have round : ∀ before items, Open before items →
      Reads (manyRound closing item items) fun passed =>
        Round (fun passed items => All passed items.reverse) Open (before ++ passed) := by
    intro before items continues
    refine (reads_atEnd closing).bind fun _ ended nothing => ?_
    subst nothing
    cases ended with
    | true => exact .pure (by simpa [Round] using stop before items continues)
    | false =>
        refine reads.bind fun front value extend => .pure fun rest values all => ?_
        simpa using continues _ _ (extend rest values all)
  have start : Open [] [] := fun _ _ all => all
  have rounds := Reads.iterate round start
  exact rounds.bind fun front items all => .pure (by simpa using all)

theorem reads_many {item : Parser α} {closing : Token.Kind} {Item : List Token → α → Prop}
    (reads : Reads item Item) : Reads (many closing item) (Repeated Item) :=
  reads_manyOf .nil (reads.mono fun _ _ derives _ _ => .cons derives)

theorem reads_separated {item : Parser α} {closing : Symbol} {Item : List Token → α → Prop}
    (reads : Reads item Item) : Reads (closedList closing item) fun passed list =>
      ∃ inner, ∃ close : Token, Separated Item inner list.1 ∧ close.kind = .symbol closing ∧
        passed = inner ++ [close] := by
  have parts : Reads item fun passed value =>
      ∃ part : List Token × α, Item part.1 part.2 ∧ passed = part.1 ∧ value = part.2 :=
    reads.mono fun passed value derives => ⟨(passed, value), derives, rfl, rfl⟩
  refine (reads_closedList parts).mono ?_
  rintro _ ⟨_, comma⟩ ⟨inner, close, ⟨parts, items, rfl, joined⟩, isClose, rfl⟩
  exact ⟨inner, close, .of_joined items joined, isClose, rfl⟩

/-! Types. -/

section

open Covenant.TypeName (Arrays)

theorem reads_bracketsRound {before : List Token} {type : TypeName} (arrays : Arrays before type) :
    Reads (bracketsRound type) fun passed => Round Arrays Arrays (before ++ passed) := by
  refine reads_take_bind (by simp) (fun opening isOpening => ?_) (.pure ?_)
  · refine (reads_consume (by simp)).bind ?_
    rintro _ closing ⟨rfl, isClosing⟩
    exact .pure (.brackets arrays isOpening isClosing)
  · simpa [Round] using arrays

theorem readsAt_arrayType {token : Token}
    (other : token.kind = .identifier → token.text ≠ "mapping") :
    ReadsAt token arrayType Arrays := by
  have nonempty : ∀ (passed : List Token) (name : Ident),
      (∃ token : Token, passed = [token] ∧ token.kind = .identifier ∧
        name = ⟨token.text, token.pos⟩) → passed ≠ [] := by
    rintro _ _ ⟨_, rfl, _⟩
    simp
  refine (ReadsAt.of_passes reads_ident nonempty).bind ?_
  rintro _ _ ⟨_, rfl, name, same, isIdent, rfl⟩
  obtain ⟨rfl, rfl⟩ := List.cons.inj same
  exact .iterate_from (fun _ _ => reads_bracketsRound) (.name isIdent (other isIdent))

theorem reads_typeWithin (limit levels : Nat) :
    Reads (typeWithin limit levels) TypeName.Derives := by
  have arrays {token : Token} (other : token.kind = .identifier → token.text ≠ "mapping") :
      ReadsAt token arrayType TypeName.Derives := by
    intro state value after first succeeds
    obtain ⟨passed, split, going, derives⟩ := readsAt_arrayType other first succeeds
    exact ⟨passed, split, going, .arrays derives⟩
  induction levels with
  | zero => exact reads_isWord_bind (fun _ _ _ => .of_reads (.throw _)) fun _ => arrays
  | succ levels induction =>
      refine reads_isWord_bind (fun word isIdent isText => ?_) fun _ => arrays
      refine .nested (.advance_bind (by simp [isIdent]) ?_)
      refine (reads_consume (by simp)).bind ?_
      rintro _ opening ⟨rfl, isOpening⟩
      refine reads_ident.bind ?_
      rintro _ _ ⟨key, rfl, isKey, rfl⟩
      refine (reads_consume (by simp)).bind ?_
      rintro _ arrow ⟨rfl, isArrow⟩
      refine induction.bind fun tokens value derives => ?_
      refine (reads_consume (by simp)).bind ?_
      rintro _ closing ⟨rfl, isClosing⟩
      exact .pure (.mapping ⟨isIdent, isText⟩ isOpening isKey isArrow derives isClosing)

end

/-! Statements. -/

section

open Stmt (Derives Simple Ending Step)

variable {limit : Nat} {expr : Parser Expr} {block : Parser (List Stmt)}

theorem reads_blockOf {statements : Parser (List Stmt)} (reads : Reads statements (Derives .body)) :
    Reads (blockOf statements) (Derives .block) := by
  refine (reads_consume (by simp)).bind ?_
  rintro _ opening ⟨rfl, isOpening⟩
  refine reads.bind fun tokens body derives => ?_
  refine (reads_consume (by simp)).bind ?_
  rintro _ closing ⟨rfl, isClosing⟩
  exact .pure (.block isOpening derives isClosing)

theorem reads_atStmtEnd : Reads atStmtEnd fun passed _ => passed = [] :=
  .peek_bind fun _ => .of_reads (.pure rfl)

theorem reads_ending : Reads (take (.symbol .semicolon)) fun passed _ => Ending passed := by
  have read : Reads (take (.symbol .semicolon) >>= pure) fun passed _ => Ending passed :=
    reads_take_bind (by simp) (fun _ isSemicolon => .pure (.semicolon isSemicolon)) (.pure .none)
  rwa [bind_pure] at read

section

variable (reads : Reads expr (Expr.Derives .expr)) (readsBlock : Reads block (Derives .block))

include reads

theorem readsAt_exprStmt (first : Token) : ReadsAt first (exprStmt expr first.pos) Simple := by
  refine (ReadsAt.of_passes reads fun _ _ derives => derives.ne_nil).bind ?_
  rintro _ target ⟨rest, rfl, derives⟩
  refine reads_take_bind (by simp) (fun sign isSign => ?_) (.pure ?_)
  · exact reads.bind fun tokens value valueDerives => .pure (by
      simpa using Simple.assign derives isSign valueDerives)
  · simpa using Simple.expr derives

include readsBlock

theorem reads_branchOver {elseBranch : Parser Stmt}
    (readsElse : Reads elseBranch fun passed stmt => Derives .branch passed [stmt]) :
    Reads (branchOver expr block elseBranch) fun passed stmt => Derives .branch passed [stmt] := by
  refine (reads_consume (by simp)).bind ?_
  rintro _ word ⟨rfl, isWord⟩
  refine reads.bind fun condition test derives => ?_
  refine readsBlock.bind fun yesTokens yes yesDerives => ?_
  refine reads_take_bind (by simp) (fun other isElse => .peek_bind fun next => ?_) (.pure ?_)
  · split
    · refine .of_reads (readsBlock.bind fun noTokens no noDerives => .pure ?_)
      simpa using Derives.ifElse isWord derives yesDerives isElse (.inl rfl) noDerives
    · refine .of_reads (readsElse.bind fun noTokens no noDerives => .pure ?_)
      simpa using Derives.ifElse isWord derives yesDerives isElse (.inr rfl) noDerives
    · exact .of_reads (.throw _)
  · simpa using Derives.if_ isWord derives yesDerives

theorem reads_branchWithin (levels : Nat) : Reads (branchWithin limit expr block levels)
    fun passed stmt => Derives .branch passed [stmt] := by
  induction levels with
  | zero => exact reads_branchOver reads readsBlock (.throw _)
  | succ levels induction => exact reads_branchOver reads readsBlock (.nested induction)

theorem reads_countingLoop :
    Reads (countingLoop expr block) fun passed stmt => Derives .stmt passed [stmt] := by
  refine (reads_consume (by simp)).bind ?_
  rintro _ word ⟨rfl, isWord⟩
  refine .peek_bind fun counter => ?_
  by_cases isCounter : counter.kind = .identifier
  · rw [if_neg (by simpa using isCounter)]
    refine .advance_bind (by simp [isCounter]) ?_
    refine reads_take_bind (by simp) (fun sign isSign => ?_)
      (.peek_bind fun _ => .of_reads (.throw _))
    refine reads.bind fun initial start startDerives => ?_
    refine reads_takeWord_bind (fun bound isBound isTo => ?_)
      (.peek_bind fun _ => .of_reads (.throw _))
    refine reads.bind fun final stop stopDerives => ?_
    have loop {step : List Token} {increment : Expr} (isStep : Step counter step increment) :
        Reads (block >>= fun body => pure (Stmt.for_ word.pos counter.ident start stop
            (Stmt.countBy counter.ident increment) body)) fun passed stmt =>
          Derives .stmt (word :: counter :: sign ::
            (initial ++ bound :: (final ++ (step ++ passed)))) [stmt] := by
      refine readsBlock.bind fun tokens body bodyDerives => .pure ?_
      simpa using Derives.for_ isWord isCounter isSign startDerives ⟨isBound, isTo⟩ stopDerives
        isStep bodyDerives
    refine reads_takeWord_bind (fun step isIdent isStep => ?_) ?_
    · refine reads.bind fun tokens increment derives => ?_
      simpa [Token.ident] using loop (.given ⟨isIdent, isStep⟩ derives)
    · simpa [Token.ident] using loop .one
  · rw [if_pos isCounter]
    exact .of_reads (.peek_bind fun _ => .of_reads (.throw _))

/-- A statement and the semicolon that may follow it. -/
theorem reads_simpleStmt : Reads (simpleStmt expr block) fun passed stmt =>
    ∀ ending, Ending ending → Derives .stmt (passed ++ ending) [stmt] := by
  refine .peek_bind fun word => ?_
  split
  · next isWord =>
      refine .advance_bind (by simp [isWord]) ?_
      refine reads.bind fun condition test derives => ?_
      refine readsBlock.bind fun tokens body bodyDerives => .pure fun ending isEnding => ?_
      simpa using Derives.while_ isWord derives bodyDerives isEnding
  · next isWord =>
      refine .advance_bind (by simp [isWord]) (reads_atStmtEnd.bind ?_)
      rintro _ ended rfl
      cases ended with
      | true => exact .pure fun ending => .simple (.return_ isWord)
      | false =>
          refine reads.bind fun tokens value derives => .pure fun ending isEnding => ?_
          simpa using Derives.simple (.returnValue isWord derives) isEnding
  · next isWord =>
      exact .advance_bind (by simp [isWord]) (.pure fun ending => .simple (.break_ isWord))
  · next isWord =>
      exact .advance_bind (by simp [isWord]) (.pure fun ending => .simple (.continue_ isWord))
  · intro state stmt after first succeeds
    obtain ⟨passed, split, going, simple⟩ := readsAt_exprStmt reads word first succeeds
    exact ⟨passed, split, going, fun ending => .simple simple⟩

end

theorem reads_stmt (readsBlock : Reads block (Derives .block)) :
    Reads (stmt limit block) fun passed stmt => Derives .stmt passed [stmt] := by
  have reads := reads_exprWithin limit limit
  refine .peek_bind fun token => .of_reads ?_
  split
  · exact (reads_branchWithin reads readsBlock limit).mono fun _ _ => .branch
  · exact reads_countingLoop reads readsBlock
  · refine (reads_simpleStmt reads readsBlock).bind fun tokens stmt derives => ?_
    exact reads_ending.bind fun ending _ isEnding => .pure (by simpa using derives ending isEnding)

theorem reads_blockWithin (limit levels : Nat) :
    Reads (blockWithin limit levels) (Derives .block) := by
  induction levels with
  | zero => exact reads_blockOf (.throw _)
  | succ levels induction =>
      refine reads_blockOf (.nested (reads_manyOf .nil ?_))
      exact (reads_stmt induction).mono fun _ _ derives _ _ => .cons derives

end

/-! Declarations. -/

section

variable {limit : Nat}

theorem reads_typedName : Reads (typedName limit) fun passed pair =>
    TypedName passed pair.1 pair.2 := by
  refine reads_ident.bind ?_
  rintro _ _ ⟨name, rfl, isName, rfl⟩
  refine (reads_consume (by simp)).bind ?_
  rintro _ colon ⟨rfl, isColon⟩
  exact (reads_typeWithin limit limit).bind fun tokens type derives =>
    .pure (by simpa [Token.ident] using TypedName.mk isName isColon derives)

theorem reads_storageLocation? : Reads storageLocation? StorageLocation.Derives := by
  refine reads_take_bind (by simp) (fun word isWord => .pure (.some isWord)) ?_
  exact reads_take_bind (by simp) (fun word isWord => .pure (.some isWord)) (.pure .none)

theorem reads_stateVar : Reads (stateVar limit) StateVar.Derives := by
  refine reads_typedName.bind ?_
  rintro typed ⟨name, type⟩ derives
  refine reads_storageLocation?.bind fun place location placeDerives => ?_
  refine (reads_consume (by simp)).bind ?_
  rintro _ semicolon ⟨rfl, isSemicolon⟩
  exact .pure (.mk derives placeDerives isSemicolon)

theorem reads_field : Reads (field limit) Field.Derives := by
  refine reads_typedName.bind ?_
  rintro typed ⟨name, type⟩ derives
  refine (reads_consume (by simp)).bind ?_
  rintro _ semicolon ⟨rfl, isSemicolon⟩
  exact .pure (.mk derives isSemicolon)

theorem reads_struct : Reads (struct limit) Struct.Derives := by
  refine (reads_consume (by simp)).bind ?_
  rintro _ word ⟨rfl, isWord⟩
  refine reads_ident.bind ?_
  rintro _ _ ⟨name, rfl, isName, rfl⟩
  refine (reads_consume (by simp)).bind ?_
  rintro _ opening ⟨rfl, isOpening⟩
  refine (reads_many reads_field).bind fun tokens fields derive => ?_
  refine (reads_consume (by simp)).bind ?_
  rintro _ closing ⟨rfl, isClosing⟩
  exact .pure (.mk isWord isName isOpening derive isClosing)

theorem reads_parameter : Reads (parameter limit) Parameter.Derives := by
  refine reads_typedName.bind ?_
  rintro typed ⟨name, type⟩ derives
  refine reads_take_bind (by simp) (fun sign isSign => ?_) (.pure ?_)
  · exact (reads_exprWithin limit limit).bind fun tokens value valueDerives =>
      .pure (by simpa using Parameter.Derives.optional derives isSign valueDerives)
  · simpa using Parameter.Derives.required derives

theorem modifier?_eq_some_iff {kind : Token.Kind} {modifier : Modifier} :
    modifier? kind = some modifier ↔ kind = .keyword modifier.keyword := by
  cases kind with
  | keyword word => simp [modifier?, Modifier.ofKeyword?_eq_some_iff]
  | symbol | identifier | number | string | eof => simp [modifier?]

theorem reads_modifierRound {before : List Token} {modifiers : Modifiers}
    (derives : Modifiers.Derives before modifiers) :
    Reads (modifierRound modifiers) fun passed =>
      Round Modifiers.Derives Modifiers.Derives (before ++ passed) := by
  refine .peek_bind fun word => ?_
  split
  · exact .of_reads (.pure (by simpa [Round] using derives))
  · next modifier found =>
      have isWord := modifier?_eq_some_iff.1 found
      cases given : modifiers.has modifier with
      | true => exact .of_reads (.throw _)
      | false => exact .advance_bind (by simp [isWord]) (.pure (.add derives isWord given))

theorem reads_modifiers : Reads modifiers Modifiers.Derives :=
  .iterate (fun _ _ => reads_modifierRound) .none

theorem reads_returnType? : Reads returnType? ReturnType.Derives := by
  have names : Reads ident fun passed name => ReturnType.Name passed name.name := by
    refine reads_ident.mono ?_
    rintro _ _ ⟨name, rfl, isName, rfl⟩
    exact .mk isName
  refine reads_take_bind (by simp) (fun arrow isArrow => ?_) (.pure .none)
  refine reads_take_bind (by simp) (fun opening isOpening => ?_) ?_
  · refine (reads_separated names).bind ?_
    rintro _ ⟨list, comma⟩ ⟨inner, closing, separated, isClosing, rfl⟩
    exact .pure (by simpa using
      ReturnType.Derives.tuple isArrow isOpening separated.map isClosing)
  · refine reads_ident.bind ?_
    rintro _ _ ⟨name, rfl, isName, rfl⟩
    exact .pure (.single isArrow isName)

theorem reads_function : Reads (function limit) Function.Derives := by
  refine (reads_consume (by simp)).bind ?_
  rintro _ word ⟨rfl, isWord⟩
  refine reads_ident.bind ?_
  rintro _ _ ⟨name, rfl, isName, rfl⟩
  refine (reads_consume (by simp)).bind ?_
  rintro _ opening ⟨rfl, isOpening⟩
  refine (reads_separated reads_parameter).bind ?_
  rintro _ ⟨parameters, comma⟩ ⟨inner, closing, separated, isClosing, rfl⟩
  refine reads_modifiers.bind fun words modifiers modifiersDerive => ?_
  refine reads_returnType?.bind fun result returns returnsDerive => ?_
  refine (reads_blockWithin limit limit).bind fun tokens body bodyDerives => .pure ?_
  simpa [Token.ident] using Function.Derives.mk isWord isName isOpening separated isClosing
    modifiersDerive returnsDerive bodyDerives

inductive Member.Derives : List Token → Member → Prop where
  | stateVar {tokens : List Token} {var : StateVar} :
      StateVar.Derives tokens var → Derives tokens (.stateVar var)
  | function {tokens : List Token} {function : Function} :
      Function.Derives tokens function → Derives tokens (.function function)
  | struct {tokens : List Token} {struct : Struct} :
      Struct.Derives tokens struct → Derives tokens (.struct struct)

theorem reads_member : Reads (member limit) Member.Derives := by
  refine .peek_bind fun token => .of_reads ?_
  split
  · exact reads_function.bind fun _ _ derives => .pure (by simpa using .function derives)
  · exact reads_struct.bind fun _ _ derives => .pure (by simpa using .struct derives)
  · exact reads_stateVar.bind fun _ _ derives => .pure (by simpa using .stateVar derives)

/-- Members keep their order among those of their sort. -/
theorem members_of_repeated {tokens : List Token} {members : List Member}
    (derive : Repeated Member.Derives tokens members) :
    Members tokens (members.filterMap Member.stateVar?) (members.filterMap Member.function?)
      (members.filterMap Member.struct?) := by
  induction derive with
  | nil => exact .nil
  | cons first _ induction =>
      cases first with
      | stateVar derives => exact .stateVar derives induction
      | function derives => exact .function derives induction
      | struct derives => exact .struct derives induction

theorem reads_contract : Reads (contract limit) Contract.Derives := by
  refine (reads_consume (by simp)).bind ?_
  rintro _ word ⟨rfl, isWord⟩
  refine reads_ident.bind ?_
  rintro _ _ ⟨name, rfl, isName, rfl⟩
  refine (reads_consume (by simp)).bind ?_
  rintro _ opening ⟨rfl, isOpening⟩
  refine (reads_many reads_member).bind fun tokens members derive => ?_
  refine (reads_consume (by simp)).bind ?_
  rintro _ closing ⟨rfl, isClosing⟩
  exact .pure (.mk isWord isName isOpening (members_of_repeated derive) isClosing)

/-! Whole programs. -/

theorem program_eq_ok_iff {state after : State} {value : Program} :
    program limit state = .ok value after ↔
      ∃ contracts, iterate (manyRound .eof (contract limit)) [] state = .ok contracts after ∧
        after.next.kind = .eof ∧ contracts ≠ [] ∧ value = ⟨contracts.reverse⟩ := by
  constructor
  · intro succeeds
    obtain ⟨_, between, readAll, remaining⟩ := bind_eq_ok_iff.1 succeeds
    obtain ⟨contracts, _, read, returned⟩ := bind_eq_ok_iff.1 readAll
    cases returned
    obtain ⟨token, behind, consumed, finished⟩ := bind_eq_ok_iff.1 remaining
    have ended := kind_of_consume consumed
    rw [consume_eof ended] at consumed
    cases consumed
    split at finished
    · cases finished
    · next nonempty =>
        cases finished
        exact ⟨contracts, read, ended, by simpa using nonempty, rfl⟩
  · rintro ⟨contracts, read, ended, nonempty, rfl⟩
    have readAll : many .eof (contract limit) state = .ok contracts.reverse after :=
      bind_of_ok read _
    rw [program, bind_of_ok readAll, bind_of_ok (consume_eof ended),
      if_neg (by simpa using nonempty)]
    rfl

end

end Parser

end Covenant
