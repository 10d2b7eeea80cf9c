import Covenant.Expr.Parser
import Covenant.Proofs.Expr.Grammar

/-! Whatever the routines for expressions accept, the grammar derives. -/

namespace Covenant.Parser

open Covenant.Expr (Derives Written WrittenProperty)

theorem binaryOp?_eq_some_iff {level : BinaryOp.Level} {kind : Token.Kind} {op : BinaryOp} :
    binaryOp? level kind = some op ↔ kind = .symbol op.symbol ∧ op.level = level := by
  cases kind with
  | symbol sign => simp [binaryOp?, Option.filter_eq_some_iff, BinaryOp.ofSymbol?_eq_some_iff]
  | keyword | identifier | number | string | eof => simp [binaryOp?]

theorem unaryOp?_eq_some_iff {kind : Token.Kind} {op : UnaryOp} :
    unaryOp? kind = some op ↔ kind = .symbol op.symbol := by
  cases kind with
  | symbol sign => simp [unaryOp?, UnaryOp.ofSymbol?_eq_some_iff]
  | keyword | identifier | number | string | eof => simp [unaryOp?]

section

variable {limit : Nat} {level : BinaryOp.Level} {levels : List BinaryOp.Level}
  {operand : Parser Expr}

theorem reads_operatorRound (reads : Reads operand (Derives (.binary levels)))
    {before : List Token} {left : Expr}
    (derives : Derives (.binary (level :: levels)) before left) :
    Reads (operatorRound limit level operand left) fun passed =>
      Round (Derives (.binary (level :: levels))) (Derives (.binary (level :: levels)))
        (before ++ passed) := by
  refine .peek_bind fun token => ?_
  cases found : binaryOp? level token.kind with
  | none => exact .of_reads (.pure (by simpa [Round] using derives))
  | some op =>
      obtain ⟨isSign, rfl⟩ := binaryOp?_eq_some_iff.1 found
      refine .descend_bind (.advance_bind (by simp [isSign]) ?_)
      refine reads.bind fun back right rightDerives => .pure ?_
      simpa [Round] using Derives.operator derives isSign rightDerives

theorem progressive_operatorRound (reads : Reads operand fun _ _ => True) :
    Progressive (operatorRound limit level operand) := by
  refine fun left => .peek_bind fun token => ?_
  cases found : binaryOp? level token.kind with
  | none => exact .of_reads (.pure trivial)
  | some op =>
      have isSign := (binaryOp?_eq_some_iff.1 found).1
      refine .descend_bind (.advance_bind (by simp [isSign]) ?_)
      exact reads.bind fun back right _ => .pure (by simp [Round])

theorem reads_leftAssoc (reads : Reads operand (Derives (.binary levels))) :
    Reads (leftAssoc limit level operand) (Derives (.binary (level :: levels))) := by
  refine .levelled (reads.bind fun front first derives => ?_)
  exact .iterate_from (fun _ _ => reads_operatorRound reads) (.noOperator derives)

theorem reads_binary (reads : Reads operand (Derives .unary)) (levels : List BinaryOp.Level) :
    Reads (binary limit operand levels) (Derives (.binary levels)) := by
  induction levels with
  | nil => exact reads.mono fun _ _ => .operand
  | cons level levels induction => exact reads_leftAssoc induction

end

section

variable {limit : Nat} {primary : Parser Expr}

theorem reads_unaryOver {operand : Parser Expr} (reads : Reads primary (Derives .primary))
    (readsOperand : Reads operand (Derives .unary)) :
    Reads (unaryOver primary operand) (Derives .unary) := by
  refine .peek_bind fun token => ?_
  cases found : unaryOp? token.kind with
  | none => exact .of_reads (reads.mono fun _ _ => .noSign)
  | some op =>
      have isSign := unaryOp?_eq_some_iff.1 found
      refine .advance_bind (by simp [isSign]) ?_
      refine readsOperand.bind fun back value derives => .pure ?_
      simpa using Derives.sign isSign derives

theorem reads_unaryWithin (reads : Reads primary (Derives .primary)) (levels : Nat) :
    Reads (unaryWithin limit primary levels) (Derives .unary) := by
  induction levels with
  | zero => exact reads_unaryOver reads (.throw _)
  | succ levels induction => exact reads_unaryOver reads (.nested induction)

end

section

variable {limit : Nat} {expr : Parser Expr} (reads : Reads expr (Derives .expr))

include reads

theorem reads_exprs {closing : Symbol} : Reads (closedList closing expr) fun passed list =>
    ∃ inner, ∃ close : Token,
      Listed (fun written : Written => Derives .expr written.tokens written.value) Written.tokens
        Written.value inner list ∧
      close.kind = .symbol closing ∧ passed = inner ++ [close] :=
  reads_closedList (reads.mono fun passed value derives => ⟨⟨passed, value⟩, derives, rfl, rfl⟩)

theorem reads_property : Reads (property expr) fun passed result =>
    ∃ property : WrittenProperty, (property.key.kind = .identifier ∧
      property.colon.kind = .symbol .colon ∧ Derives .expr property.tokens property.value) ∧
      passed = property.phrase ∧ result = property.pair := by
  refine reads_ident.bind fun _ name ⟨key, keyPassed, isIdent, nameIs⟩ => ?_
  refine (reads_consume (by simp)).bind fun _ colon ⟨colonPassed, isColon⟩ => ?_
  refine reads.bind fun tokens value derives => .pure ?_
  refine ⟨⟨⟨tokens, value⟩, key, colon⟩, ⟨isIdent, isColon, derives⟩, ?_, ?_⟩
  · simp [WrittenProperty.phrase, keyPassed, colonPassed]
  · simp [WrittenProperty.pair, nameIs]

/-- An access, if there is one, passes tokens and makes a longer chain of any chain. -/
theorem reads_access? (object : Expr) : Reads (access? expr object) fun passed result =>
    (result = none ∧ passed = []) ∨
      ∃ value, result = some value ∧ passed ≠ [] ∧
        ∀ before, Derives .chain before object → Derives .chain (before ++ passed) value := by
  refine .peek_bind fun token => ?_
  split
  · next isDot =>
      refine .advance_bind (by simp [isDot]) ?_
      refine reads_ident.bind fun _ name ⟨token, passed, isIdent, nameIs⟩ => .pure ?_
      subst passed nameIs
      exact .inr ⟨_, rfl, by simp, fun before derives => .member derives isDot isIdent⟩
  · next isOpening =>
      refine .advance_bind (by simp [isOpening]) ?_
      refine reads.bind fun key value keyDerives => ?_
      refine (reads_consume (by simp)).bind fun _ closing ⟨passed, isClosing⟩ => .pure ?_
      subst passed
      refine .inr ⟨_, rfl, by simp, fun before derives => ?_⟩
      simpa using Derives.index derives isOpening keyDerives isClosing
  · next isOpening =>
      refine .advance_bind (by simp [isOpening]) ?_
      refine (reads_exprs reads).bind fun _ list ⟨inner, closing, listed, isClosing, passed⟩ => ?_
      obtain ⟨arguments, argumentsDerive, values, joined⟩ := listed
      subst passed
      refine .pure (.inr ⟨_, rfl, by simp, fun before derives => ?_⟩)
      simpa [values] using Derives.call derives isOpening argumentsDerive joined isClosing
  · exact .of_reads (.pure (.inl ⟨rfl, rfl⟩))

theorem reads_accessRound {before : List Token} {object : Expr}
    (derives : Derives .chain before object) :
    Reads (accessRound limit expr object) fun passed =>
      Round (Derives .chain) (Derives .chain) (before ++ passed) := by
  refine (reads_access? reads object).bind fun front result outcome => ?_
  rcases outcome with ⟨rfl, rfl⟩ | ⟨value, rfl, _, longer⟩
  · exact .pure (by simpa [Round] using derives)
  · exact .descend_bind (.pure (by simpa [Round] using longer before derives))

theorem progressive_accessRound : Progressive (accessRound limit expr) := by
  refine fun object => (reads_access? reads object).bind fun front result outcome => ?_
  rcases outcome with ⟨rfl, rfl⟩ | ⟨value, rfl, nonempty, _⟩
  · exact .pure trivial
  · exact .descend_bind (.pure (by simpa [Round] using nonempty))

theorem reads_accesses {before : List Token} {root : Expr} (derives : Derives .chain before root) :
    Reads (accesses limit expr root) fun passed => Derives .chain (before ++ passed) :=
  .levelled (.iterate_from (fun _ _ => reads_accessRound reads) derives)

theorem reads_parenthesized {opening : Token} (isOpening : opening.kind = .symbol .lparen) :
    Reads (parenthesized expr opening.pos) fun passed => Derives .primary (opening :: passed) := by
  refine (reads_exprs reads).bind fun _ list ⟨inner, closing, listed, isClosing, passed⟩ => ?_
  obtain ⟨values, comma⟩ := list
  obtain ⟨elements, derive, rfl, joined⟩ := listed
  subst passed
  by_cases grouped : comma = false ∧ elements ≠ []
  · obtain ⟨rfl, nonempty⟩ := grouped
    obtain ⟨element, rfl, rfl⟩ := List.map_eq_singleton_iff.1
      (joined.eq_singleton (by simpa using nonempty))
    exact .pure (by simpa using .group isOpening (derive element (by simp)) isClosing)
  · have isTuple : comma = true ∨ elements = [] := by
      cases comma with
      | true => exact .inl rfl
      | false => exact .inr (Classical.not_not.1 fun nonempty => grouped ⟨rfl, nonempty⟩)
    have derives := Derives.tuple isOpening derive joined isTuple isClosing
    split
    · next single same =>
        obtain ⟨isSingle, rfl⟩ := Prod.mk.inj same
        exact (grouped ⟨rfl, fun empty => by simp [empty] at isSingle⟩).elim
    · next others flag _ same =>
        obtain ⟨rfl, -⟩ := Prod.mk.inj same
        exact .pure (by simpa using derives)

theorem reads_primary : Reads (primary limit expr) (Derives .primary) := by
  refine reads_advance.bind fun front token passed => ?_
  split
  · next isNumber =>
      obtain rfl := passed (by simp [isNumber])
      exact .pure (.number isNumber)
  · next isString =>
      obtain rfl := passed (by simp [isString])
      exact .pure (.string isString)
  · next isTrue =>
      obtain rfl := passed (by simp [isTrue])
      exact .pure (.true_ isTrue)
  · next isFalse =>
      obtain rfl := passed (by simp [isFalse])
      exact .pure (.false_ isFalse)
  · next isOpening =>
      obtain rfl := passed (by simp [isOpening])
      refine (reads_exprs reads).bind fun _ list ⟨inner, closing, listed, isClosing, closed⟩ => ?_
      obtain ⟨elements, derive, values, joined⟩ := listed
      subst closed
      exact .pure (by simpa [values] using Derives.array isOpening derive joined isClosing)
  · next isOpening =>
      obtain rfl := passed (by simp [isOpening])
      refine (reads_closedList (reads_property reads)).bind
        fun _ list ⟨inner, closing, listed, isClosing, closed⟩ => ?_
      obtain ⟨properties, derive, values, joined⟩ := listed
      subst closed
      simp only [forall_and] at derive
      have derives := Derives.object isOpening derive.1 derive.2.1 derive.2.2 joined isClosing
      exact .pure (by simpa [values] using derives)
  · next isName =>
      obtain rfl := passed (by simp [isName])
      exact (reads_accesses reads (.name isName)).mono fun _ _ => .chain
  · next isOpening =>
      obtain rfl := passed (by simp [isOpening])
      exact reads_parenthesized reads isOpening
  · exact .throw _

theorem reads_ternary : Reads (ternary limit expr) (Derives .expr) := by
  refine (reads_binary (reads_unaryWithin (reads_primary reads) limit) _).bind
    fun front condition derives => ?_
  refine reads_take_bind (by simp) (fun question isQuestion => ?_) (.pure ?_)
  · refine reads.bind fun yes first firstDerives => ?_
    refine (reads_consume (by simp)).bind fun _ colon ⟨passed, isColon⟩ => ?_
    refine reads.bind fun no second secondDerives => .pure ?_
    subst passed
    simpa using Derives.choice derives isQuestion firstDerives isColon secondDerives
  · simpa using Derives.noChoice derives

end

theorem reads_exprWithin (limit levels : Nat) :
    Reads (exprWithin limit levels) (Derives .expr) := by
  induction levels with
  | zero => exact .throw _
  | succ levels induction => exact .nested (reads_ternary induction)

end Covenant.Parser
