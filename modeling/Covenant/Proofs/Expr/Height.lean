import Mathlib.Tactic.Linarith
import Mathlib.Tactic.Ring
import Covenant.Proofs.Expr.Completeness
import Covenant.Proofs.Parser.Nesting
import Covenant.Proofs.Syntax.Height

/-! How high the expressions are that can be read within a limit. Each fold of an operator and each
access opens a level, but all of them are closed again at the end of their chain. The chains of all
five levels and of the accesses can therefore stand on top of each other inside every group, and the
height grows with the square of the limit. -/

namespace Covenant

namespace Parser

/-- How high an expression can be while so many levels are left to open. -/
def heightWithin : Nat → Nat
  | 0 => 1
  | room + 1 => heightWithin room + 6 * room + 1

theorem heightWithin_add (room : Nat) : heightWithin room + 2 * room = 3 * room * room + 1 := by
  induction room with
  | zero => rfl
  | succ room induction =>
      rw [heightWithin]
      linarith

theorem heightWithin_le {room : Nat} (positive : 0 < room) :
    heightWithin room ≤ 3 * room * room := by
  have closed := heightWithin_add room
  omega

theorem heightWithin_strictMono : StrictMono heightWithin := by
  apply strictMono_nat_of_lt_succ
  intro room
  rw [heightWithin]
  omega

theorem heightWithin_pos (room : Nat) : 0 < heightWithin room := by
  cases room with
  | zero => exact Nat.one_pos
  | succ room => exact Nat.succ_pos _

/-- How high an operand can be, with the operators of so many levels over it. -/
def operatorHeight (levels room : Nat) : Nat :=
  heightWithin room + (levels + 1) * room

theorem operatorHeight_strictMono (levels : Nat) : StrictMono (operatorHeight levels) := by
  intro room more lower
  have base := heightWithin_strictMono lower
  have chains := Nat.mul_le_mul_left (levels + 1) (Nat.le_of_lt lower)
  exact Nat.add_lt_add_of_lt_of_le base chains

theorem heightWithin_le_operatorHeight (levels room : Nat) :
    heightWithin room ≤ operatorHeight levels room :=
  Nat.le_add_right _ _

theorem operatorHeight_pos (levels room : Nat) : 0 < operatorHeight levels room :=
  Nat.lt_of_lt_of_le (heightWithin_pos room) (heightWithin_le_operatorHeight levels room)

theorem operatorHeight_succ (levels room : Nat) :
    operatorHeight (levels + 1) room = operatorHeight levels room + room := by
  rw [operatorHeight, operatorHeight]
  ring

theorem heightWithin_succ (room : Nat) :
    heightWithin (room + 1) = operatorHeight BinaryOp.Level.all.length room + 1 := rfl

/-- An expression that could be read with `depth` levels open. -/
structure Fits (limit depth : Nat) (expr : Expr) : Prop where
  room : depth < limit
  height : expr.height ≤ heightWithin (limit - depth)

theorem Fits.height_lt {limit depth levels : Nat} {expr : Expr} (fits : Fits limit depth expr) :
    expr.height < operatorHeight levels (limit - depth) := by
  have low := fits.height
  have room := fits.room
  have chains : 0 < (levels + 1) * (limit - depth) := Nat.mul_pos (by omega) (by omega)
  rw [operatorHeight]
  omega

/-- What a chain has come to when `levels` are open: it started at `depth` with something no higher
than `bound`, and each round has opened a level. -/
structure Grown (limit depth bound : Nat) (value : Expr) (levels : Nat) : Prop where
  opened : depth ≤ levels
  room : levels - depth ≤ limit - depth
  height : value.height ≤ bound + (levels - depth)

namespace Grown

variable {limit depth bound levels : Nat} {value next : Expr}

theorem start (same : levels = depth) (low : value.height ≤ bound) :
    Grown limit depth bound value levels :=
  ⟨by omega, by omega, by omega⟩

theorem step (grown : Grown limit depth bound value levels) (room : levels < limit)
    (low : next.height ≤ bound + (levels - depth) + 1) :
    Grown limit depth bound next (levels + 1) := by
  have opened := grown.opened
  exact ⟨by omega, by omega, by omega⟩

theorem height_le (grown : Grown limit depth bound value levels) :
    value.height ≤ bound + (limit - depth) :=
  Nat.le_trans grown.height (Nat.add_le_add_left grown.room bound)

end Grown

/-! The chains. -/

theorem operatorRound_eq_ok {limit : Nat} {level : BinaryOp.Level} {operand : Parser Expr}
    {left : Expr} {state after : State} {outcome : ForInStep Expr}
    (succeeds : operatorRound limit level operand left state = .ok outcome after) :
    outcome = .done left ∧ after = state ∨
      ∃ op right between, outcome = .yield (.binary left.pos op left right) ∧
        state.depth < limit ∧ between.depth = state.depth + 1 ∧
          operand between = .ok right after := by
  obtain ⟨token, _, peeked, continued⟩ := bind_eq_ok_iff.1 succeeds
  cases peeked
  cases found : binaryOp? level state.next.kind with
  | none =>
      rw [found] at continued
      cases continued
      exact .inl ⟨rfl, rfl⟩
  | some op =>
      rw [found] at continued
      obtain ⟨_, deeper, descended, advanced⟩ := bind_eq_ok_iff.1 continued
      obtain ⟨room, rfl⟩ := descend_eq_ok descended
      obtain ⟨_, between, passed, read⟩ := bind_eq_ok_iff.1 advanced
      obtain ⟨right, last, ran, ended⟩ := bind_eq_ok_iff.1 read
      cases ended
      exact .inr ⟨op, right, between, rfl, room, Balanced.advance passed, ran⟩

theorem accessRound_eq_ok {limit : Nat} {expr : Parser Expr} {object : Expr} {state after : State}
    {outcome : ForInStep Expr}
    (succeeds : accessRound limit expr object state = .ok outcome after) :
    outcome = .done object ∧ access? expr object state = .ok none after ∨
      ∃ value between, outcome = .yield value ∧
        access? expr object state = .ok (some value) between ∧ between.depth < limit ∧
          after.depth = between.depth + 1 := by
  obtain ⟨result, between, accessed, continued⟩ := bind_eq_ok_iff.1 succeeds
  cases result with
  | none =>
      cases continued
      exact .inl ⟨rfl, accessed⟩
  | some value =>
      obtain ⟨_, deeper, descended, ended⟩ := bind_eq_ok_iff.1 continued
      obtain ⟨room, rfl⟩ := descend_eq_ok descended
      cases ended
      exact .inr ⟨value, between, rfl, accessed, room, rfl⟩

theorem yields_leftAssoc {limit : Nat} {bound : Nat → Nat} {operand : Parser Expr}
    (monotone : Monotone bound) (balanced : Balanced operand)
    (yields : ∀ depth, Yields depth operand fun value => value.height ≤ bound (limit - depth))
    (level : BinaryOp.Level) (depth : Nat) :
    Yields depth (leftAssoc limit level operand) fun value =>
      value.height ≤ bound (limit - depth) + (limit - depth) := by
  apply Yields.levelled
  refine (yields depth).bind balanced fun first low => ?_
  intro state value after opened succeeds
  have start : Grown limit depth (bound (limit - depth)) first state.depth := .start opened low
  apply Grown.height_le (iterate_keeps _ ?_ start succeeds)
  intro left state outcome after grown stepped
  rcases operatorRound_eq_ok stepped with ⟨rfl, rfl⟩ | ⟨op, right, between, rfl, room, deeper, ran⟩
  · exact grown
  · rw [balanced ran, deeper]
    apply grown.step room
    have lowLeft := grown.height
    have lowRight : right.height ≤ bound (limit - between.depth) := yields _ rfl ran
    have fewer : bound (limit - between.depth) ≤ bound (limit - depth) := by
      apply monotone
      have opened := grown.opened
      omega
    apply Expr.height_le_iff.2
    intro part member
    simp only [ForInStep.value, Expr.parts, List.mem_cons, List.not_mem_nil, or_false] at member
    rcases member with rfl | rfl
    · exact lowLeft
    · omega

theorem yields_binary {limit : Nat} {operand : Parser Expr} (balanced : Balanced operand)
    (yields : ∀ depth, Yields depth operand fun value =>
      value.height ≤ operatorHeight 0 (limit - depth))
    (levels : List BinaryOp.Level) (depth : Nat) :
    Yields depth (binary limit operand levels) fun value =>
      value.height ≤ operatorHeight levels.length (limit - depth) := by
  induction levels generalizing depth with
  | nil => exact yields depth
  | cons level levels induction =>
      have monotone := (operatorHeight_strictMono levels.length).monotone
      have balancedLevels := balanced_binary balanced limit levels
      rw [List.length_cons, operatorHeight_succ]
      exact yields_leftAssoc monotone balancedLevels induction level depth

section

variable {limit : Nat} {primary : Parser Expr} (balanced : Balanced primary)
  (yields : ∀ depth, Yields depth primary fun value =>
    value.height ≤ operatorHeight 0 (limit - depth))

include yields

theorem yields_unaryOver {operand : Parser Expr} {depth : Nat} (balancedOperand : Balanced operand)
    (yieldsOperand : Yields depth operand fun value =>
      value.height < operatorHeight 0 (limit - depth)) :
    Yields depth (unaryOver primary operand) fun value =>
      value.height ≤ operatorHeight 0 (limit - depth) := by
  refine .skip .peek fun token => ?_
  cases unaryOp? token.kind with
  | none => exact yields depth
  | some op =>
      refine .skip .advance fun _ => yieldsOperand.bind balancedOperand fun value low => .pure ?_
      apply Expr.height_le_of_parts (operatorHeight_pos _ _)
      simpa [Expr.parts] using low

include balanced

theorem yields_unaryWithin (signs depth : Nat) :
    Yields depth (unaryWithin limit primary signs) fun value =>
      value.height ≤ operatorHeight 0 (limit - depth) := by
  induction signs generalizing depth with
  | zero => exact yields_unaryOver yields (.throw _) (.throw _)
  | succ signs induction =>
      have balancedSigns := balanced_unaryWithin balanced limit signs
      apply yields_unaryOver yields (balancedSigns.nested limit)
      refine .nested fun room => (induction (depth + 1)).mono fun value low => ?_
      have fewer : limit - (depth + 1) < limit - depth := by omega
      exact Nat.lt_of_le_of_lt low (operatorHeight_strictMono 0 fewer)

end

section

variable {limit : Nat} {expr : Parser Expr} (balanced : Balanced expr)
  (yields : ∀ depth, Yields depth expr (Fits limit depth))

include balanced yields

theorem yields_access? {object : Expr} {depth bound : Nat} (low : object.height ≤ bound)
    (enough : heightWithin (limit - depth) ≤ bound) :
    Yields depth (access? expr object) fun result =>
      ∀ value ∈ result, value.height ≤ bound + 1 := by
  refine .skip .peek fun token => ?_
  split
  · refine .skip .advance fun _ => .skip .ident fun _ => .pure ?_
    rintro value ⟨⟩
    apply Expr.height_le_iff.2
    simpa [Expr.parts] using low
  · refine .skip .advance fun _ => (yields depth).bind balanced fun key fits =>
      .skip (.consume _) fun _ => .pure ?_
    rintro value ⟨⟩
    apply Expr.height_le_iff.2
    simpa [Expr.parts, low] using Nat.le_trans fits.height enough
  · refine .skip .advance fun _ => ((yields depth).closedList balanced _).bind
      (balanced.closedList _) fun list fits => .pure ?_
    rintro value ⟨⟩
    apply Expr.height_le_iff.2
    refine List.forall_mem_cons.2 ⟨low, fun part member => ?_⟩
    exact Nat.le_trans (fits part member).height enough
  · apply Yields.pure
    simp

theorem yields_accesses {root : Expr} (leaf : root.height ≤ 1) (depth : Nat) :
    Yields depth (accesses limit expr root) fun value =>
      value.height ≤ operatorHeight 0 (limit - depth) := by
  apply Yields.levelled
  intro state value after opened succeeds
  have low : root.height ≤ heightWithin (limit - depth) :=
    Nat.le_trans leaf (heightWithin_pos _)
  have start : Grown limit depth (heightWithin (limit - depth)) root state.depth :=
    .start opened low
  rw [operatorHeight, Nat.zero_add, Nat.one_mul]
  apply Grown.height_le (iterate_keeps _ ?_ start succeeds)
  intro object state outcome after grown stepped
  rcases accessRound_eq_ok stepped with ⟨rfl, accessed⟩ |
    ⟨value, between, rfl, accessed, room, deeper⟩
  · rw [balanced_access? balanced object accessed]
    exact grown
  · have same := balanced_access? balanced object accessed
    rw [deeper, same]
    rw [same] at room
    apply grown.step room
    have fewer : heightWithin (limit - state.depth) ≤ heightWithin (limit - depth) := by
      apply heightWithin_strictMono.monotone
      have opened := grown.opened
      omega
    have enough := Nat.le_trans fewer (Nat.le_add_right _ (state.depth - depth))
    exact yields_access? balanced yields grown.height enough rfl accessed value rfl

theorem yields_parenthesized (pos : Position) (depth : Nat) :
    Yields depth (parenthesized expr pos) fun value =>
      value.height ≤ operatorHeight 0 (limit - depth) := by
  refine ((yields depth).closedList balanced _).bind (balanced.closedList _) fun list fits => ?_
  split
  · next inner => exact .pure (Nat.le_of_lt (fits inner (by simp)).height_lt)
  · refine .pure (Expr.height_le_of_parts (operatorHeight_pos _ _) fun part member => ?_)
    exact (fits part member).height_lt

theorem yields_primary (depth : Nat) :
    Yields depth (primary limit expr) fun value =>
      value.height ≤ operatorHeight 0 (limit - depth) := by
  have node {value : Expr} (fits : ∀ part ∈ value.parts, Fits limit depth part) :
      value.height ≤ operatorHeight 0 (limit - depth) :=
    Expr.height_le_of_parts (operatorHeight_pos _ _) fun part member => (fits part member).height_lt
  have leaf {value : Expr} (alone : value.parts = []) :
      value.height ≤ operatorHeight 0 (limit - depth) :=
    node (by simp [alone])
  have property : Yields depth (property expr) fun pair => Fits limit depth pair.2 :=
    .skip .ident fun _ => .skip (.consume _) fun _ =>
      (yields depth).bind balanced fun value fits => .pure fits
  have balancedProperty := balanced_property balanced
  refine .skip .advance fun token => ?_
  split
  · exact .pure (leaf rfl)
  · exact .pure (leaf rfl)
  · exact .pure (leaf rfl)
  · exact .pure (leaf rfl)
  · refine ((yields depth).closedList balanced _).bind (balanced.closedList _) fun list fits => ?_
    exact .pure (node fits)
  · refine (property.closedList balancedProperty _).bind (balancedProperty.closedList _)
      fun list fits => .pure (node ?_)
    exact List.forall_mem_map.2 fits
  · apply yields_accesses balanced yields
    exact Expr.height_le_of_parts Nat.one_pos (by simp [Expr.parts])
  · exact yields_parenthesized balanced yields token.pos depth
  · exact .throw _

theorem yields_ternary (depth : Nat) :
    Yields depth (ternary limit expr) fun value =>
      value.height ≤ heightWithin (limit - depth + 1) := by
  have balancedOperand := balanced_unaryWithin (balanced_primary balanced limit) limit limit
  have condition := yields_binary balancedOperand (yields_unaryWithin
    (balanced_primary balanced limit) (yields_primary balanced yields) limit)
    BinaryOp.Level.all depth
  refine condition.bind (balanced_binary balancedOperand limit _) fun condition low => ?_
  refine .skip (.take _) fun _ => .ite ?_ (.pure ?_)
  · refine (yields depth).bind balanced fun yes fitsYes => .skip (.consume _) fun _ =>
      (yields depth).bind balanced fun no fitsNo => .pure ?_
    rw [heightWithin_succ]
    apply Expr.height_le_iff.2
    simpa [Expr.parts, low] using ⟨fitsYes.height_lt.le, fitsNo.height_lt.le⟩
  · rw [heightWithin_succ]
    exact Nat.le_succ_of_le low

end

theorem yields_exprWithin (limit levels depth : Nat) :
    Yields depth (exprWithin limit levels) (Fits limit depth) := by
  induction levels generalizing depth with
  | zero => exact .throw _
  | succ levels induction =>
      refine .nested fun room => ?_
      refine (yields_ternary (balanced_exprWithin limit levels) induction (depth + 1)).mono
        fun value low => ⟨room, ?_⟩
      rwa [show limit - depth = limit - (depth + 1) + 1 by omega]

end Parser

end Covenant
