import Mathlib.Data.Nat.Choose.Basic
import Covenant.Proofs.Expr.Height
import Covenant.Proofs.Token.Writing
import Covenant.Rules.Expr

/-! Expressions that use every level twice: once for a group, and once more in each group outside of
it for a summand. Their heights grow with the square of the limit. -/

namespace Covenant

namespace Expr

open Token (Shape)

def summands : Nat → List Shape
  | 0 => []
  | count + 1 => .sign .plus :: .number "1" :: summands count

/-- Groups inside each other. Each has one summand more after it than the one inside it. -/
def tower : Nat → List Shape
  | 0 => [.number "1"]
  | storeys + 1 => .sign .lparen :: (tower storeys ++ [.sign .rparen]) ++ summands (storeys + 1)

theorem spelled_one : (Shape.number "1").Spelled :=
  .integer (by simp [Shape.number]) (by simp [Shape.number])

theorem writable_summands (count : Nat) : Shape.Writable (summands count) := by
  induction count with
  | zero => simp [summands]
  | succ count induction => simp [summands, spelled_one, induction]

theorem writable_tower (storeys : Nat) : Shape.Writable (tower storeys) := by
  induction storeys with
  | zero => simp [tower, spelled_one]
  | succ storeys induction => simp [tower, induction, writable_summands]

end Expr

namespace Parser

open Covenant.Expr (summands tower)

theorem EndsExpr.ends {kind : Token.Kind} (ends : EndsExpr kind) (levels : List BinaryOp.Level) :
    Ends levels kind :=
  ⟨ends.noAccess, fun level _ => ends.noOperator level (by cases level <;> decide)⟩

theorem binary_append {limit levels depth : Nat} {tokens rest : List Token} {next : Token}
    {value : Expr} (outer : List BinaryOp.Level) {inner : List BinaryOp.Level}
    (succeeds : binary limit (operand limit levels) inner ⟨tokens, depth⟩ =
      .ok value ⟨next :: rest, depth⟩)
    (noOperator : ∀ level ∈ outer, binaryOp? level next.kind = none) :
    binary limit (operand limit levels) (outer ++ inner) ⟨tokens, depth⟩ =
      .ok value ⟨next :: rest, depth⟩ := by
  induction outer with
  | nil => exact succeeds
  | cons level outer induction =>
      have read := induction fun other member => noOperator other (.tail _ member)
      rw [List.cons_append, binary, leftAssoc, levelled_eq, bind_of_ok read,
        (progressive_operators limit levels level (outer ++ inner)).iterate_of_done
          (operatorRound_done (noOperator level (.head _)))]
      rfl

/-- A group, read as the operand of a product. -/
theorem binary_group {limit levels depth : Nat} {tokens rest : List Token}
    {opening closing next : Token} {value : Expr} (isOpening : opening.kind = .symbol .lparen)
    (parses : Parses (.symbol .rparen) (exprWithin limit levels) depth tokens value)
    (isClosing : closing.kind = .symbol .rparen) (ends : Ends [.multiplicative] next.kind) :
    binary limit (operand limit levels) [.multiplicative]
        ⟨opening :: (tokens ++ [closing]) ++ next :: rest, depth⟩ =
      .ok value ⟨next :: rest, depth⟩ := by
  have reads : Reads (exprWithin limit levels) fun _ _ => True :=
    (reads_exprWithin limit levels).mono fun _ _ _ => trivial
  have single : Joined ([⟨tokens, value⟩].map Expr.Written.tokens) false tokens := .last tokens
  have list : closedList .rparen (exprWithin limit levels)
      ⟨tokens ++ closing :: next :: rest, depth⟩ =
        .ok ([⟨tokens, value⟩].map Expr.Written.value, false) ⟨next :: rest, depth⟩ :=
    closedList_eq reads isClosing (by simp) single (by simpa using parses)
  have noSign : unaryOp? opening.kind = none := by simp [isOpening, unaryOp?, UnaryOp.ofSymbol?]
  have read : operand limit levels ⟨opening :: (tokens ++ [closing]) ++ next :: rest, depth⟩ =
      .ok value ⟨next :: rest, depth⟩ :=
    unaryWithin_of_primary noSign (primary_group isOpening list)
  exact binary_append [.multiplicative] read ends.noOperator

/-- These summands are folded onto `left`, if there are as many levels left. -/
def Folds (count : Nat) (tokens : List Token) (left value : Expr) : Prop :=
  ∀ ⦃limit levels depth next rest⦄, depth + count ≤ limit → limit ≤ depth + levels →
    Ends [.additive, .multiplicative] next.kind →
      iterate (operatorRound limit .additive
          (binary limit (operand limit levels) [.multiplicative])) left
        ⟨tokens ++ next :: rest, depth⟩ = .ok value ⟨next :: rest, depth + count⟩

/-- These tokens are read as an expression, if more than `storeys` levels are left. -/
def ReadsOver (storeys : Nat) (tokens : List Token) (value : Expr) : Prop :=
  ∀ ⦃limit levels depth next rest⦄, depth + storeys < limit → limit ≤ depth + levels →
    EndsExpr next.kind →
      exprWithin limit levels ⟨tokens ++ next :: rest, depth⟩ = .ok value ⟨next :: rest, depth⟩

section

variable {tokens : List Token}

theorem summands_follow {count : Nat} {next : Token}
    (shaped : tokens.map Token.shape = summands count) (ends : Ends [.multiplicative] next.kind)
    (rest : List Token) :
    ∃ first others, tokens ++ next :: rest = first :: others ∧
      Ends [.multiplicative] first.kind := by
  cases count with
  | zero =>
      obtain rfl := List.map_eq_nil_iff.1 shaped
      exact ⟨next, rest, rfl, ends⟩
  | succ count =>
      obtain ⟨plus, others, rfl, isPlus, _⟩ := List.map_eq_cons_iff.1 shaped
      have kind : plus.kind = .symbol BinaryOp.add.symbol := congrArg Token.Shape.kind isPlus
      exact ⟨plus, others ++ next :: rest, rfl, kind ▸ ends_of_sign (by decide)⟩

/-- One more summand in front of others. -/
theorem Folds.cons {count : Nat} {plus one : Token} {left value : Expr}
    (isPlus : plus.kind = .symbol .plus) (isOne : one.kind = .number)
    (shaped : tokens.map Token.shape = summands count)
    (folds : Folds count tokens
      (.binary left.pos .add left (.literal one.pos (.number one.text))) value) :
    Folds (count + 1) (plus :: one :: tokens) left value := by
  intro limit levels depth next rest room enough ends
  have endsTighter : Ends [.multiplicative] next.kind :=
    ⟨ends.noAccess, fun level member => ends.noOperator level (.tail _ member)⟩
  obtain ⟨first, others, split, follows⟩ := summands_follow shaped endsTighter rest
  have accepts : Accepts limit (.binary [.multiplicative]) [one]
      (.literal one.pos (.number one.text)) :=
    accepts_of_derives (.noOperator (.operand (.noSign (.number isOne))))
  have read : binary limit (operand limit levels) [.multiplicative]
      ⟨one :: first :: others, depth + 1⟩ =
        .ok (.literal one.pos (.number one.text)) ⟨first :: others, depth + 1⟩ :=
    accepts.binary (by simp) ⟨by omega, by simp; omega⟩ follows
  have sign : plus.kind = .symbol BinaryOp.add.symbol := isPlus
  have round : operatorRound limit .additive
      (binary limit (operand limit levels) [.multiplicative]) left
      ⟨plus :: one :: first :: others, depth⟩ =
        .ok (.yield (.binary left.pos .add left (.literal one.pos (.number one.text))))
          ⟨first :: others, depth + 1⟩ :=
    operatorRound_yield sign (by omega) read
  rw [List.cons_append, List.cons_append, split,
    (progressive_operators limit levels _ _).iterate_of_yield round, ← split,
    Nat.add_comm count, ← Nat.add_assoc]
  exact folds (by omega) (by omega) ends

/-- Each summand opens a level and makes the sum one higher. -/
theorem exists_folds {count : Nat} (shaped : tokens.map Token.shape = summands count)
    {left : Expr} (passes : left.check = .ok ()) :
    ∃ value : Expr, left.height + count ≤ value.height ∧ value.check = .ok () ∧
      Folds count tokens left value := by
  induction count generalizing tokens left with
  | zero =>
      obtain rfl := List.map_eq_nil_iff.1 shaped
      refine ⟨left, Nat.le_refl _, passes, ?_⟩
      intro limit levels depth next rest _ _ ends
      exact (progressive_operators limit levels _ _).iterate_of_done
        (operatorRound_done (ends.noOperator _ (by simp)))
  | succ count induction =>
      obtain ⟨plus, _, rfl, isPlus, shaped⟩ := List.map_eq_cons_iff.1 shaped
      obtain ⟨one, tokens, rfl, isOne, shaped⟩ := List.map_eq_cons_iff.1 shaped
      let sum : Expr := .binary left.pos .add left (.literal one.pos (.number one.text))
      have sumPasses : sum.check = .ok () := by
        rw [Expr.check, passes]
        rfl
      obtain ⟨value, high, valuePasses, folds⟩ := induction shaped sumPasses
      have higher : left.height < sum.height := Expr.height_part_lt (.head _)
      refine ⟨value, by omega, valuePasses, ?_⟩
      exact .cons (congrArg Token.Shape.kind isPlus) (congrArg Token.Shape.kind isOne) shaped folds

theorem tower_starts {storeys : Nat} (shaped : tokens.map Token.shape = tower storeys) :
    ∃ first rest, tokens = first :: rest ∧ first.kind ≠ .eof ∧ first.kind ≠ .symbol .rparen := by
  cases storeys with
  | zero =>
      obtain ⟨first, rest, rfl, isFirst, _⟩ := List.map_eq_cons_iff.1 shaped
      have kind : first.kind = .number := congrArg Token.Shape.kind isFirst
      exact ⟨first, rest, rfl, by simp [kind], by simp [kind]⟩
  | succ storeys =>
      obtain ⟨first, rest, rfl, isFirst, _⟩ := List.map_eq_cons_iff.1 shaped
      have kind : first.kind = .symbol .lparen := congrArg Token.Shape.kind isFirst
      exact ⟨first, rest, rfl, by simp [kind], by simp [kind]⟩

theorem readsOver_number {token : Token} (isNumber : token.kind = .number) :
    ReadsOver 0 [token] (.literal token.pos (.number token.text)) := by
  intro limit levels depth next rest room enough ends
  have derives : Expr.Derives .primary [token] (.literal token.pos (.number token.text)) :=
    .number isNumber
  have accepts : Accepts limit .expr [token] (.literal token.pos (.number token.text)) :=
    accepts_of_derives (.noChoice (.noOperator (.noOperator (.noOperator (.noOperator
      (.noOperator (.operand (.noSign derives))))))))
  exact accepts ⟨enough, by simp; omega⟩ ends

/-- A group with summands after it. All levels but one are there for the group, and again for the
summands. -/
theorem ReadsOver.storey {storeys : Nat} {sums : List Token} {opening closing : Token}
    {inner value : Expr} (isOpening : opening.kind = .symbol .lparen)
    (starts : ∃ first rest, tokens = first :: rest ∧ first.kind ≠ .eof ∧
      first.kind ≠ .symbol .rparen)
    (reads : ReadsOver storeys tokens inner) (isClosing : closing.kind = .symbol .rparen)
    (shaped : sums.map Token.shape = summands (storeys + 1))
    (folds : Folds (storeys + 1) sums inner value) :
    ReadsOver (storeys + 1) (opening :: (tokens ++ [closing]) ++ sums) value := by
  intro limit levels depth next rest room enough ends
  obtain ⟨levels, rfl⟩ : ∃ fewer, levels = fewer + 1 := ⟨levels - 1, by omega⟩
  obtain ⟨first, others, split, follows⟩ := summands_follow shaped (ends.ends _) rest
  have parses : Parses (.symbol .rparen) (exprWithin limit levels) (depth + 1) tokens inner :=
    ⟨starts, fun _ _ follow =>
      reads (by omega) (by omega) (endsExpr_of_follows (by simp [closers]) follow)⟩
  apply nested_of_ok (by omega)
  apply ternary_of_binary ends.noChoice
  apply binary_append [.logical, .bitwise, .comparison] ?_ (ends.ends _).noOperator
  rw [List.append_assoc, split, binary, leftAssoc, levelled_eq,
    bind_of_ok (binary_group isOpening parses isClosing follows), ← split,
    folds (by omega) (by omega) (ends.ends _)]
  rfl

theorem exists_readsOver_tower {storeys : Nat} (shaped : tokens.map Token.shape = tower storeys) :
    ∃ value : Expr, 1 + (storeys + 1) * (storeys + 1 - 1) / 2 ≤ value.height ∧
      value.check = .ok () ∧ ReadsOver storeys tokens value := by
  induction storeys generalizing tokens with
  | zero =>
      obtain ⟨one, rfl, isOne⟩ := List.map_eq_singleton_iff.1 shaped
      exact ⟨_, Expr.height_pos _, rfl, readsOver_number (congrArg Token.Shape.kind isOne)⟩
  | succ storeys induction =>
      obtain ⟨group, sums, rfl, shapedGroup, shapedSums⟩ := List.map_eq_append_iff.1 shaped
      obtain ⟨opening, _, rfl, isOpening, shapedRest⟩ := List.map_eq_cons_iff.1 shapedGroup
      obtain ⟨tokens, _, rfl, shapedInner, shapedClosing⟩ := List.map_eq_append_iff.1 shapedRest
      obtain ⟨closing, rfl, isClosing⟩ := List.map_eq_singleton_iff.1 shapedClosing
      obtain ⟨inner, high, innerPasses, reads⟩ := induction shapedInner
      obtain ⟨value, higher, passes, folds⟩ := exists_folds shapedSums innerPasses
      have triangle := Nat.triangle_succ (storeys + 1)
      refine ⟨value, by omega, passes, ?_⟩
      exact .storey (congrArg Token.Shape.kind isOpening) (tower_starts shapedInner) reads
        (congrArg Token.Shape.kind isClosing) shapedSums folds

end

end Parser

end Covenant
