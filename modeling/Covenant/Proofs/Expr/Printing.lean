import Covenant.Expr.Printer
import Covenant.Expr.Relocate
import Covenant.Proofs.Expr.Grammar
import Covenant.Proofs.Token.Writing

/-! The shapes that an expression is printed with derive the same expression, with places of their
own. The parentheses that are printed are enough for every part to stand where it stands. -/

namespace Covenant

open Token (Shape)

theorem joined_commaSeparated (items : List (List Shape)) :
    Joined (items.map (List.map Shape.token)) (decide (1 < items.length))
      ((Shape.commaSeparated items).map Shape.token) := by
  induction items with
  | nil => exact .nil
  | cons item items induction =>
      cases items with
      | nil => simpa [Shape.commaSeparated] using Joined.last (item.map Shape.token)
      | cons next items =>
          simpa [Shape.commaSeparated] using
            Joined.cons (item.map Shape.token) (Shape.kind_sign .comma) induction

namespace Expr

/-- An expression with all its places at the start of the source. -/
def unplaced (expr : Expr) : Expr :=
  expr.relocate fun _ => .start

/-- The levels that bind tighter than this one. -/
def tighter : BinaryOp.Level → List BinaryOp.Level
  | .logical => [.bitwise, .comparison, .additive, .multiplicative]
  | .bitwise => [.comparison, .additive, .multiplicative]
  | .comparison => [.additive, .multiplicative]
  | .additive => [.multiplicative]
  | .multiplicative => []

/-- The sort of phrase that every expression of at least this rank is. -/
def Phrase.ofRank : Nat → Phrase
  | 0 => .expr
  | 1 => .binary BinaryOp.Level.all
  | 2 => .binary (tighter .logical)
  | 3 => .binary (tighter .bitwise)
  | 4 => .binary (tighter .comparison)
  | 5 => .binary (tighter .additive)
  | 6 => .unary
  | _ => .primary

theorem Phrase.ofRank_rank (level : BinaryOp.Level) :
    Phrase.ofRank level.rank = .binary (level :: tighter level) := by
  cases level <;> rfl

section

variable {tokens : List Token} {value : Expr}

theorem Derives.of_succ {rank : Nat} (derives : Derives (.ofRank (rank + 1)) tokens value) :
    Derives (.ofRank rank) tokens value := by
  match rank with
  | 0 => exact .noChoice derives
  | 1 | 2 | 3 | 4 => exact .noOperator derives
  | 5 => exact .noOperator (.operand derives)
  | 6 => exact .noSign derives
  | _ + 7 => exact derives

theorem Derives.of_le {rank least : Nat} (derives : Derives (.ofRank rank) tokens value)
    (le : least ≤ rank) : Derives (.ofRank least) tokens value := by
  induction le with
  | refl => exact derives
  | step _ induction => exact induction derives.of_succ

theorem Derives.of_tighter {level : BinaryOp.Level}
    (derives : Derives (.ofRank (level.rank + 1)) tokens value) :
    Derives (.binary (tighter level)) tokens value := by
  cases level with
  | logical | bitwise | comparison | additive => exact derives
  | multiplicative => exact .operand derives

end

/-- An expression as it is printed, with the value that this derives. -/
def reprint (expr : Expr) : Written :=
  ⟨expr.shapes.map Shape.token, expr.unplaced⟩

/-- The printed expression is a phrase of its rank. A chain stays a chain. -/
def Reprints : Phrase → Expr → Prop
  | .chain, expr => Derives .chain expr.reprint.tokens expr.reprint.value
  | _, expr => Derives (.ofRank expr.rank) expr.reprint.tokens expr.reprint.value

theorem Derives.rank_of_chain {tokens : List Token} {value : Expr}
    (derives : Derives .chain tokens value) : value.rank = 7 := by
  cases derives <;> rfl

theorem derives_grouped {expr : Expr} {least : Nat} (small : least ≤ 7)
    (derives : Derives (.ofRank expr.rank) expr.reprint.tokens expr.reprint.value) :
    Derives (.ofRank least) ((expr.grouped least expr.shapes).map Shape.token) expr.unplaced := by
  rw [grouped]
  split
  · have whole : Derives .expr expr.reprint.tokens expr.reprint.value :=
      derives.of_le (Nat.zero_le _)
    have group : Derives (.ofRank 7) _ _ :=
      .group (Shape.kind_sign .lparen) whole (Shape.kind_sign .rparen)
    simpa [reprint] using group.of_le small
  · next enough => exact derives.of_le (Nat.not_lt.1 enough)

theorem derive_reprint {elements : List Written}
    (reprint : ∀ element ∈ elements, Reprints .expr element.value) :
    ∀ written ∈ (elements.map Written.value).map Expr.reprint,
      Derives .expr written.tokens written.value := by
  intro written member
  rw [List.map_map] at member
  obtain ⟨element, isElement, rfl⟩ := List.mem_map.1 member
  exact (reprint element isElement).of_le (Nat.zero_le _)

theorem joined_reprint (elements : List Expr) : Joined ((elements.map reprint).map Written.tokens)
    (decide (1 < elements.length))
    ((Shape.commaSeparated (elements.map shapes)).map Shape.token) := by
  simpa [Function.comp_def, reprint] using joined_commaSeparated (elements.map shapes)

/-- The comma of a tuple of one element is printed, too. -/
theorem joined_tupleShapes (elements : List Expr) :
    ∃ comma inner, Joined ((elements.map reprint).map Written.tokens) comma inner ∧
      (comma = true ∨ elements.map reprint = []) ∧
      (tupleShapes (elements.map shapes)).map Shape.token =
        (Shape.sign .lparen).token :: (inner ++ [(Shape.sign .rparen).token]) := by
  match elements with
  | [] => exact ⟨false, [], .nil, .inr rfl, rfl⟩
  | [element] =>
      refine ⟨true, _, .cons element.reprint.tokens (Shape.kind_sign .comma) .nil, .inl rfl, ?_⟩
      simp [tupleShapes, reprint]
  | first :: second :: others =>
      refine ⟨_, _, joined_reprint _, .inl (by simp), ?_⟩
      simp [tupleShapes]

def WrittenProperty.reprint (property : WrittenProperty) : WrittenProperty :=
  ⟨property.value.reprint, (Shape.name property.key.text).token, (Shape.sign .colon).token⟩

theorem joined_reprintProperties (properties : List WrittenProperty) :
    Joined ((properties.map WrittenProperty.reprint).map WrittenProperty.phrase)
      (decide (1 < properties.length))
      ((Shape.commaSeparated (propertyShapesEach (properties.map WrittenProperty.pair))).map
        Shape.token) := by
  have joined := joined_commaSeparated (propertyShapesEach (properties.map WrittenProperty.pair))
  simpa [Function.comp_def, WrittenProperty.reprint, WrittenProperty.phrase, WrittenProperty.pair,
    reprint] using joined

theorem reprints_of_derives {phrase : Phrase} {tokens : List Token} {value : Expr}
    (derives : Derives phrase tokens value) : Reprints phrase value := by
  -- The phrases between a group and an operand only pass their value on, so the induction keeps the
  -- rank of the value and not the sort of phrase it was found in.
  induction derives with
  | @choice _ _ _ _ _ test first second _ _ _ _ _ condition yes no =>
      have tested : Derives (.ofRank 1) _ test.unplaced := derives_grouped (by decide) condition
      have printed := Derives.choice tested (Shape.kind_sign .question) (yes.of_le (Nat.zero_le _))
        (Shape.kind_sign .colon) (no.of_le (Nat.zero_le _))
      simpa [Reprints, reprint, shapes, unplaced, relocate, rank, Phrase.ofRank] using printed
  | noChoice _ induction | noOperator _ induction | operand _ induction | noSign _ induction =>
      exact induction
  | @operator op _ _ _ _ first second _ _ _ left right =>
      have small : op.level.rank + 1 ≤ 7 := by
        cases op.level <;> decide
      have leftPrinted : Derives (.ofRank op.level.rank) _ first.unplaced :=
        derives_grouped (Nat.le_of_succ_le small) left
      have rightPrinted : Derives (.ofRank (op.level.rank + 1)) _ second.unplaced :=
        derives_grouped small right
      rw [Phrase.ofRank_rank] at leftPrinted
      have printed :=
        Derives.operator leftPrinted (Shape.kind_sign op.symbol) rightPrinted.of_tighter
      simpa [Reprints, reprint, shapes, unplaced, relocate, rank, Phrase.ofRank_rank] using printed
  | @sign op _ _ operand _ _ induction =>
      have printed : Derives (.ofRank 6) _ operand.unplaced := derives_grouped (by decide) induction
      exact .sign (Shape.kind_sign op.symbol) printed
  | number => exact .number rfl
  | @string token _ _ =>
      have printed := Derives.string (Eq.refl (Shape.string token.stringValue).token.kind)
      rw [Shape.stringValue_token] at printed
      exact printed
  | true_ => exact .true_ rfl
  | false_ => exact .false_ rfl
  | chain derives induction =>
      rw [Reprints, derives.rank_of_chain]
      · exact .chain induction
      · simp
  | array _ _ _ _ induction =>
      have printed := Derives.array (Shape.kind_sign .lbracket) (derive_reprint induction)
        (joined_reprint _) (Shape.kind_sign .rbracket)
      simpa [Reprints, reprint, shapes, unplaced, relocate, rank, Phrase.ofRank,
        Function.comp_def] using printed
  | @object _ _ properties _ _ _ _ _ _ _ _ induction =>
      have values : ∀ property ∈ properties.map WrittenProperty.reprint,
          Derives .expr property.tokens property.value := by
        intro written member
        obtain ⟨property, isProperty, rfl⟩ := List.mem_map.1 member
        exact (induction property isProperty).of_le (Nat.zero_le _)
      have printed := Derives.object (Shape.kind_sign .lbrace) (by simp [WrittenProperty.reprint])
        (by simp [WrittenProperty.reprint]) values (joined_reprintProperties properties)
        (Shape.kind_sign .rbrace)
      simpa [Reprints, reprint, shapes, unplaced, relocate, rank, Phrase.ofRank,
        WrittenProperty.reprint, WrittenProperty.pair, Function.comp_def] using printed
  | group _ _ _ induction => exact induction
  | @tuple _ _ elements _ _ _ _ _ _ _ induction =>
      obtain ⟨comma, inner, joined, isTuple, printed⟩ :=
        joined_tupleShapes (elements.map Written.value)
      have derives := Derives.tuple (Shape.kind_sign .lparen) (derive_reprint induction) joined
        isTuple (Shape.kind_sign .rparen)
      rw [← printed] at derives
      simpa [Reprints, reprint, shapes, unplaced, relocate, rank, Phrase.ofRank,
        Function.comp_def] using derives
  | name => exact .name rfl
  | @member _ _ name _ _ _ _ induction =>
      have printed := Derives.member induction (Shape.kind_sign .dot) (Shape.kind_name name.text)
      simpa [Reprints, reprint, shapes, unplaced, relocate] using printed
  | index _ _ _ _ base key =>
      have printed := Derives.index base (Shape.kind_sign .lbracket) (key.of_le (Nat.zero_le _))
        (Shape.kind_sign .rbracket)
      simpa [Reprints, reprint, shapes, unplaced, relocate] using printed
  | call _ _ _ _ _ base induction =>
      have printed := Derives.call base (Shape.kind_sign .lparen) (derive_reprint induction)
        (joined_reprint _) (Shape.kind_sign .rparen)
      simpa [Reprints, reprint, shapes, unplaced, relocate, Function.comp_def] using printed

theorem Derives.reprint {tokens : List Token} {value : Expr}
    (derives : Derives .expr tokens value) :
    Derives .expr value.reprint.tokens value.reprint.value :=
  Derives.of_le (reprints_of_derives derives) (Nat.zero_le _)

/-! What is printed are texts of tokens. -/

theorem writable_grouped {expr : Expr} (least : Nat) (writable : Shape.Writable expr.shapes) :
    Shape.Writable (expr.grouped least expr.shapes) := by
  rw [grouped]
  split
  · simpa using writable
  · exact writable

theorem writable_tupleShapes {items : List (List Shape)} :
    Shape.Writable (tupleShapes items) ↔ ∀ item ∈ items, Shape.Writable item := by
  match items with
  | [] => simp [tupleShapes, Shape.commaSeparated]
  | [item] => simp [tupleShapes]
  | first :: second :: others => simp [tupleShapes, Shape.writable_commaSeparated]

theorem writable_of_joined {segments : List (List Token)} {comma : Bool}
    {inner segment : List Token} (joined : Joined segments comma inner)
    (writable : Shape.Writable (inner.map Token.shape)) (member : segment ∈ segments) :
    Shape.Writable (segment.map Token.shape) :=
  writable.of_subset (List.map_subset _ (joined.subset member))

theorem writable_of_derives {phrase : Phrase} {tokens : List Token} {value : Expr}
    (derives : Derives phrase tokens value) (writable : Shape.Writable (tokens.map Token.shape)) :
    Shape.Writable value.shapes := by
  induction derives with
  | choice _ _ _ _ _ condition yes no =>
      simp only [List.map_append, List.map_cons, Shape.writable_append, Shape.writable_cons]
        at writable
      obtain ⟨inCondition, _, inYes, _, inNo⟩ := writable
      simp [shapes, writable_grouped 1 (condition inCondition), yes inYes, no inNo]
  | noChoice _ induction | noOperator _ induction | operand _ induction | noSign _ induction
  | chain _ induction => exact induction writable
  | operator _ _ _ left right =>
      simp only [List.map_append, List.map_cons, Shape.writable_append, Shape.writable_cons]
        at writable
      obtain ⟨inLeft, _, inRight⟩ := writable
      simp [shapes, writable_grouped _ (left inLeft), writable_grouped _ (right inRight)]
  | sign _ _ induction =>
      simp only [List.map_cons, Shape.writable_cons] at writable
      simp [shapes, writable_grouped 6 (induction writable.2)]
  | number isToken => simpa [Token.shape_of_number isToken, shapes, Literal.shape] using writable
  | name isToken => simpa [Token.shape_of_identifier isToken, shapes] using writable
  | string | true_ | false_ => simp [shapes, Literal.shape]
  | array _ _ joined _ induction =>
      simp only [List.map_append, List.map_cons, Shape.writable_append, Shape.writable_cons]
        at writable
      simpa [shapes, Shape.writable_commaSeparated] using fun element member =>
        induction element member
          (writable_of_joined joined writable.2.1 (List.mem_map_of_mem member))
  | @object _ _ properties _ _ _ keys _ _ joined _ induction =>
      simp only [List.map_append, List.map_cons, Shape.writable_append, Shape.writable_cons]
        at writable
      have parts (property : WrittenProperty) (member : property ∈ properties) :
          Shape.Writable (.name property.key.text :: .sign .colon :: property.value.shapes) := by
        have written := writable_of_joined joined writable.2.1 (List.mem_map_of_mem member)
        simp only [WrittenProperty.phrase, List.map_cons, Shape.writable_cons,
          Token.shape_of_identifier (keys property member)] at written
        obtain ⟨inKey, _, inValue⟩ := written
        simp [inKey, induction property member inValue]
      simpa [shapes, Shape.writable_commaSeparated, WrittenProperty.pair] using parts
  | group _ _ _ induction =>
      simp only [List.map_append, List.map_cons, Shape.writable_append, Shape.writable_cons]
        at writable
      exact induction writable.2.1
  | tuple _ _ joined _ _ induction =>
      simp only [List.map_append, List.map_cons, Shape.writable_append, Shape.writable_cons]
        at writable
      simpa [shapes, writable_tupleShapes] using fun element member =>
        induction element member
          (writable_of_joined joined writable.2.1 (List.mem_map_of_mem member))
  | member _ _ isName induction =>
      simp only [List.map_append, List.map_cons, Shape.writable_append, Shape.writable_cons]
        at writable
      obtain ⟨inBase, _, inName, _⟩ := writable
      simpa [shapes, induction inBase, Token.shape_of_identifier isName] using inName
  | index _ _ _ _ base key =>
      simp only [List.map_append, List.map_cons, Shape.writable_append, Shape.writable_cons]
        at writable
      obtain ⟨inBase, _, inKey, _⟩ := writable
      simp [shapes, base inBase, key inKey]
  | call _ _ _ joined _ base induction =>
      simp only [List.map_append, List.map_cons, Shape.writable_append, Shape.writable_cons]
        at writable
      obtain ⟨inBase, _, inner, _⟩ := writable
      simpa [shapes, base inBase, Shape.writable_commaSeparated] using fun argument member =>
        induction argument member (writable_of_joined joined inner (List.mem_map_of_mem member))

end Expr

end Covenant
