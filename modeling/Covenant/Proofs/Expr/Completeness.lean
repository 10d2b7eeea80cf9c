import Covenant.Proofs.Expr.Reading

/-! Whatever the grammar derives, the routines for expressions read, if no more levels have to be
opened than there are tokens. A phrase that grows to the left is read by a loop, so its derivations
say where the loop stands once they have been read. -/

namespace Covenant.Parser

open Covenant.Expr (Phrase Derives Written WrittenProperty)

/-! What may follow a phrase without becoming part of it. -/

def StartsAccess (kind : Token.Kind) : Prop :=
  kind = .symbol .dot ∨ kind = .symbol .lbracket ∨ kind = .symbol .lparen

structure Ends (levels : List BinaryOp.Level) (kind : Token.Kind) : Prop where
  noAccess : ¬StartsAccess kind
  noOperator : ∀ level ∈ levels, binaryOp? level kind = none

structure EndsExpr (kind : Token.Kind) : Prop extends Ends BinaryOp.Level.all kind where
  noChoice : kind ≠ .symbol .question

/-- The kinds at which an expression can start. -/
def startsExpr : Token.Kind → Bool
  | .number | .string _ | .identifier | .keyword .true_ | .keyword .false_ => true
  | .symbol sign => sign ∈ [.lbracket, .lbrace, .lparen, .bang, .minus, .tilde]
  | _ => false

/-- The symbols that close a list, or stand between two parts of a phrase. -/
def closers : List Symbol :=
  [.comma, .colon, .rparen, .rbracket, .rbrace]

theorem endsExpr_of_closer {sign : Symbol} (closer : sign ∈ closers) : EndsExpr (.symbol sign) := by
  simp only [closers, List.mem_cons, List.not_mem_nil, or_false] at closer
  refine ⟨⟨?_, fun level _ => ?_⟩, ?_⟩
  · rcases closer with rfl | rfl | rfl | rfl | rfl <;> simp [StartsAccess]
  · rcases closer with rfl | rfl | rfl | rfl | rfl <;> rfl
  · rcases closer with rfl | rfl | rfl | rfl | rfl <;> simp

/-- An item of a list is ended by the comma after it, or by what closes the list. -/
theorem endsExpr_of_follows {kind : Token.Kind} {closing : Symbol} (closer : closing ∈ closers)
    (follows : kind = .symbol .comma ∨ kind = .symbol closing) : EndsExpr kind := by
  rcases follows with rfl | rfl
  · exact endsExpr_of_closer (by simp [closers])
  · exact endsExpr_of_closer closer

theorem endsExpr_eof : EndsExpr .eof :=
  ⟨⟨by simp [StartsAccess], fun _ _ => rfl⟩, by simp⟩

theorem startsExpr_of_closer {sign : Symbol} (closer : sign ∈ closers) :
    startsExpr (.symbol sign) = false := by
  simp only [closers, List.mem_cons, List.not_mem_nil, or_false] at closer
  rcases closer with rfl | rfl | rfl | rfl | rfl <;> rfl

theorem startsExpr_of_derives {phrase : Phrase} {tokens : List Token} {value : Expr}
    (derives : Derives phrase tokens value) :
    ∃ first rest, tokens = first :: rest ∧ startsExpr first.kind = true := by
  induction derives with
  | choice _ _ _ _ _ induction | operator _ _ _ induction | member _ _ _ induction
  | index _ _ _ _ induction | call _ _ _ _ _ induction =>
      obtain ⟨first, rest, rfl, starts⟩ := induction
      exact ⟨first, _, rfl, starts⟩
  | noChoice _ induction | noOperator _ induction | operand _ induction | noSign _ induction
  | chain _ induction => exact induction
  | @sign op sign tokens value isSign =>
      refine ⟨sign, tokens, rfl, ?_⟩
      cases op <;> simp [startsExpr, isSign, UnaryOp.symbol]
  | number isToken | string isToken | true_ isToken | false_ isToken | name isToken =>
      exact ⟨_, _, rfl, by simp [startsExpr, isToken]⟩
  | array isOpening | object isOpening | group isOpening | tuple isOpening =>
      exact ⟨_, _, rfl, by simp [startsExpr, isOpening]⟩

/-- A sign in front of a phrase does not belong to a primary. -/
theorem unaryOp?_of_derives {phrase : Phrase} {tokens : List Token} {value : Expr}
    (derives : Derives phrase tokens value) (tight : phrase = .primary ∨ phrase = .chain) :
    ∃ first rest, tokens = first :: rest ∧ unaryOp? first.kind = none := by
  induction derives with
  | choice | noChoice | operator | noOperator | operand | sign | noSign => simp at tight
  | number isToken | string isToken | true_ isToken | false_ isToken | name isToken =>
      exact ⟨_, _, rfl, by simp [unaryOp?, isToken]⟩
  | array isOpening | object isOpening | group isOpening | tuple isOpening =>
      exact ⟨_, _, rfl, by simp [unaryOp?, isOpening, UnaryOp.ofSymbol?]⟩
  | chain _ induction => exact induction (.inr rfl)
  | member _ _ _ induction | index _ _ _ _ induction | call _ _ _ _ _ induction =>
      obtain ⟨first, rest, rfl, noSign⟩ := induction (.inr rfl)
      exact ⟨first, _, rfl, noSign⟩

theorem ends_of_sign {op : BinaryOp} {levels : List BinaryOp.Level} (other : op.level ∉ levels) :
    Ends levels (.symbol op.symbol) where
  noAccess := by cases op <;> simp [StartsAccess, BinaryOp.symbol]
  noOperator level member := by
    rw [Option.eq_none_iff_forall_ne_some]
    intro found same
    obtain ⟨signs, rfl⟩ := binaryOp?_eq_some_iff.1 same
    have sameOp : BinaryOp.ofSymbol? op.symbol = some found :=
      BinaryOp.ofSymbol?_eq_some_iff.2 (Token.Kind.symbol.inj signs)
    rw [BinaryOp.ofSymbol?_eq_some_iff.2 rfl] at sameOp
    obtain rfl := Option.some.inj sameOp
    exact other member

/-- There are enough levels left for so many tokens. -/
structure Room (limit levels depth tokens : Nat) : Prop where
  levels : limit ≤ depth + levels
  tokens : depth + tokens ≤ limit + 1

def operand (limit levels : Nat) : Parser Expr :=
  unaryWithin limit (primary limit (exprWithin limit levels)) limit

theorem reads_operand (limit levels : Nat) : Reads (operand limit levels) (Derives .unary) :=
  reads_unaryWithin (reads_primary (reads_exprWithin limit levels)) limit

theorem progressive_operators (limit levels : Nat) (level : BinaryOp.Level)
    (tighter : List BinaryOp.Level) :
    Progressive (operatorRound limit level (binary limit (operand limit levels) tighter)) :=
  progressive_operatorRound
    ((reads_binary (reads_operand limit levels) tighter).mono fun _ _ _ => trivial)

/-- The operators of a level and of those that bind tighter have been read up to this value, and
`folds` levels have been opened for it. -/
def ContinuesOperators (limit : Nat) (level : BinaryOp.Level) (tighter : List BinaryOp.Level)
    (tokens : List Token) (value : Expr) (folds : Nat) : Prop :=
  ∀ ⦃levels depth next rest⦄, Room limit levels depth tokens.length → Ends tighter next.kind →
    leftAssoc limit level (binary limit (operand limit levels) tighter)
        ⟨tokens ++ next :: rest, depth⟩ =
      closed depth (iterate
        (operatorRound limit level (binary limit (operand limit levels) tighter)) value
        ⟨next :: rest, depth + folds⟩)

/-- The accesses to a name have been read up to this value. -/
def ContinuesAccesses (limit : Nat) (tokens : List Token) (value : Expr) (folds : Nat) : Prop :=
  ∀ ⦃levels depth next rest⦄, Room limit levels depth tokens.length →
    primary limit (exprWithin limit levels) ⟨tokens ++ next :: rest, depth⟩ =
      closed depth (iterate (accessRound limit (exprWithin limit levels)) value
        ⟨next :: rest, depth + folds⟩)

/-- How the routine for each sort of phrase reads such a phrase. -/
def Accepts (limit : Nat) : Phrase → List Token → Expr → Prop
  | .expr, tokens, value => ∀ ⦃levels depth next rest⦄,
      Room limit levels depth (tokens.length + 1) → EndsExpr next.kind →
        exprWithin limit levels ⟨tokens ++ next :: rest, depth⟩ = .ok value ⟨next :: rest, depth⟩
  | .binary [], tokens, value => ∀ ⦃levels depth next rest⦄,
      Room limit levels depth tokens.length → ¬StartsAccess next.kind →
        operand limit levels ⟨tokens ++ next :: rest, depth⟩ = .ok value ⟨next :: rest, depth⟩
  | .binary (level :: tighter), tokens, value => (level :: tighter).Nodup →
      ∃ folds < tokens.length, ContinuesOperators limit level tighter tokens value folds
  | .unary, tokens, value => ∀ ⦃levels signs depth next rest⦄,
      Room limit levels depth tokens.length → limit ≤ depth + signs → ¬StartsAccess next.kind →
        unaryWithin limit (primary limit (exprWithin limit levels)) signs
          ⟨tokens ++ next :: rest, depth⟩ = .ok value ⟨next :: rest, depth⟩
  | .primary, tokens, value => ∀ ⦃levels depth next rest⦄,
      Room limit levels depth tokens.length → ¬StartsAccess next.kind →
        primary limit (exprWithin limit levels) ⟨tokens ++ next :: rest, depth⟩ =
          .ok value ⟨next :: rest, depth⟩
  | .chain, tokens, value => ∃ folds < tokens.length, ContinuesAccesses limit tokens value folds

section

variable {limit depth : Nat} {next : Token} {rest : List Token}

theorem operatorRound_done {level : BinaryOp.Level} {operand : Parser Expr} {left : Expr}
    (noOperator : binaryOp? level next.kind = none) :
    operatorRound limit level operand left ⟨next :: rest, depth⟩ =
      .ok (.done left) ⟨next :: rest, depth⟩ := by
  rw [operatorRound, bind_of_ok peek_cons, noOperator]
  rfl

theorem operatorRound_yield {op : BinaryOp} {operand : Parser Expr} {left right : Expr}
    {after : List Token} (isSign : next.kind = .symbol op.symbol) (room : depth < limit)
    (succeeds : operand ⟨rest, depth + 1⟩ = .ok right ⟨after, depth + 1⟩) :
    operatorRound limit op.level operand left ⟨next :: rest, depth⟩ =
      .ok (.yield (.binary left.pos op left right)) ⟨after, depth + 1⟩ := by
  rw [operatorRound, bind_of_ok peek_cons, binaryOp?_eq_some_iff.2 ⟨isSign, rfl⟩]
  change (descend limit >>= _) _ = _
  rw [bind_of_ok (descend_of_lt room), bind_of_ok (advance_cons (by simp [isSign])),
    bind_of_ok succeeds]
  rfl

theorem access?_none {expr : Parser Expr} {object : Expr} (noAccess : ¬StartsAccess next.kind) :
    access? expr object ⟨next :: rest, depth⟩ = .ok none ⟨next :: rest, depth⟩ := by
  simp only [StartsAccess, not_or] at noAccess
  rw [access?, bind_of_ok peek_cons]
  refine congrFun (?_ : _ = (pure none : Parser (Option Expr))) _
  split
  · next isDot => exact (noAccess.1 isDot).elim
  · next isBracket => exact (noAccess.2.1 isBracket).elim
  · next isParen => exact (noAccess.2.2 isParen).elim
  · rfl

theorem accessRound_done {expr : Parser Expr} {object : Expr} (noAccess : ¬StartsAccess next.kind) :
    accessRound limit expr object ⟨next :: rest, depth⟩ =
      .ok (.done object) ⟨next :: rest, depth⟩ := by
  rw [accessRound, bind_of_ok (access?_none noAccess)]
  rfl

theorem accessRound_yield {expr : Parser Expr} {object value : Expr} {before after : List Token}
    (room : depth < limit)
    (succeeds : access? expr object ⟨before, depth⟩ = .ok (some value) ⟨after, depth⟩) :
    accessRound limit expr object ⟨before, depth⟩ = .ok (.yield value) ⟨after, depth + 1⟩ := by
  rw [accessRound, bind_of_ok succeeds]
  change (descend limit >>= _) _ = _
  rw [bind_of_ok (descend_of_lt room)]
  rfl

end

section

variable {limit levels depth : Nat} {tokens rest : List Token} {value : Expr} {next : Token}

theorem Accepts.binary {tighter : List BinaryOp.Level}
    (accepts : Accepts limit (.binary tighter) tokens value) (nodup : tighter.Nodup)
    (room : Room limit levels depth tokens.length) (ends : Ends tighter next.kind) :
    Parser.binary limit (operand limit levels) tighter ⟨tokens ++ next :: rest, depth⟩ =
      .ok value ⟨next :: rest, depth⟩ := by
  cases tighter with
  | nil => exact accepts room ends.noAccess
  | cons level tighter =>
      obtain ⟨folds, _, continues⟩ := accepts nodup
      have endsTighter : Ends tighter next.kind :=
        ⟨ends.noAccess, fun other member => ends.noOperator other (by simp [member])⟩
      rw [Parser.binary, continues room endsTighter,
        (progressive_operators limit levels level tighter).iterate_of_done
          (operatorRound_done (ends.noOperator level (by simp)))]
      rfl

theorem Accepts.ends_chain (accepts : Accepts limit .chain tokens value)
    (room : Room limit levels depth tokens.length) (noAccess : ¬StartsAccess next.kind) :
    primary limit (exprWithin limit levels) ⟨tokens ++ next :: rest, depth⟩ =
      .ok value ⟨next :: rest, depth⟩ := by
  obtain ⟨folds, _, continues⟩ := accepts
  have progressive : Progressive (accessRound limit (exprWithin limit levels)) :=
    progressive_accessRound (reads_exprWithin limit levels)
  rw [continues room, progressive.iterate_of_done (accessRound_done noAccess)]
  rfl

/-! One lemma for each rule of the grammar. -/

theorem Accepts.operator {op : BinaryOp} {tighter : List BinaryOp.Level} {left right : List Token}
    {sign : Token} {first second : Expr}
    (acceptsLeft : Accepts limit (.binary (op.level :: tighter)) left first)
    (isSign : sign.kind = .symbol op.symbol)
    (acceptsRight : Accepts limit (.binary tighter) right second) :
    Accepts limit (.binary (op.level :: tighter)) (left ++ sign :: right)
      (.binary first.pos op first second) := by
  intro nodup
  -- The left operand has opened `folds` levels, which stay open while the right one is read.
  obtain ⟨folds, short, continues⟩ := acceptsLeft nodup
  obtain ⟨distinct, tighterNodup⟩ := List.nodup_cons.1 nodup
  refine ⟨folds + 1, by simp; omega, ?_⟩
  intro levels depth next rest room ends
  have length := room.tokens
  rw [List.length_append, List.length_cons] at length
  have roomLeft : Room limit levels depth left.length := ⟨room.levels, by omega⟩
  have levelsLeft := room.levels
  have roomRight : Room limit levels (depth + folds + 1) right.length := ⟨by omega, by omega⟩
  rw [List.append_assoc, List.cons_append, continues roomLeft (isSign ▸ ends_of_sign distinct),
    (progressive_operators limit levels op.level tighter).iterate_of_yield
      (operatorRound_yield isSign (by omega) (acceptsRight.binary tighterNodup roomRight ends))]
  rfl

theorem Accepts.noOperator {level : BinaryOp.Level} {tighter : List BinaryOp.Level}
    (accepts : Accepts limit (.binary tighter) tokens value) (nonempty : 0 < tokens.length) :
    Accepts limit (.binary (level :: tighter)) tokens value := by
  intro nodup
  refine ⟨0, nonempty, ?_⟩
  intro levels depth next rest room ends
  rw [leftAssoc, levelled_eq, bind_of_ok (accepts.binary (List.nodup_cons.1 nodup).2 room ends)]
  rfl

theorem Accepts.operand (accepts : Accepts limit .unary tokens value) :
    Accepts limit (.binary []) tokens value := by
  intro levels depth next rest room noAccess
  exact accepts room (by omega) noAccess

theorem Accepts.sign {op : UnaryOp} {sign : Token} (isSign : sign.kind = .symbol op.symbol)
    (accepts : Accepts limit .unary tokens value) (nonempty : 0 < tokens.length) :
    Accepts limit .unary (sign :: tokens) (.unary sign.pos op value) := by
  intro levels signs depth next rest room enough noAccess
  have length := room.tokens
  rw [List.length_cons] at length
  have levelsLeft := room.levels
  obtain ⟨signs, rfl⟩ : ∃ others, signs = others + 1 := ⟨signs - 1, by omega⟩
  have inner : unaryWithin limit (primary limit (exprWithin limit levels)) signs
      ⟨tokens ++ next :: rest, depth + 1⟩ = .ok value ⟨next :: rest, depth + 1⟩ :=
    accepts ⟨by omega, by omega⟩ (by omega) noAccess
  rw [unaryWithin, unaryOver, List.cons_append, bind_of_ok peek_cons,
    unaryOp?_eq_some_iff.2 isSign]
  change (advance >>= _) _ = _
  rw [bind_of_ok (advance_cons (by simp [isSign])), bind_of_ok (nested_of_ok (by omega) inner)]
  rfl

theorem unaryWithin_of_primary {primary : Parser Expr} {signs : Nat} {first : Token}
    {after : State} (noSign : unaryOp? first.kind = none)
    (succeeds : primary ⟨first :: rest, depth⟩ = .ok value after) :
    unaryWithin limit primary signs ⟨first :: rest, depth⟩ = .ok value after := by
  have unary (operand : Parser Expr) :
      unaryOver primary operand ⟨first :: rest, depth⟩ = .ok value after := by
    rw [unaryOver, bind_of_ok peek_cons, noSign]
    exact succeeds
  cases signs with
  | zero => exact unary _
  | succ signs => exact unary _

theorem Accepts.noSign (accepts : Accepts limit .primary tokens value)
    (derives : Derives .primary tokens value) : Accepts limit .unary tokens value := by
  intro levels signs depth next rest room enough noAccess
  obtain ⟨first, others, rfl, noSign⟩ := unaryOp?_of_derives derives (.inl rfl)
  exact unaryWithin_of_primary noSign (accepts room noAccess)

theorem Accepts.parses {closing : Symbol} (accepts : Accepts limit .expr tokens value)
    (derives : Derives .expr tokens value) (room : Room limit levels depth (tokens.length + 1))
    (closer : closing ∈ closers) :
    Parses (.symbol closing) (exprWithin limit levels) depth tokens value where
  starts := by
    obtain ⟨first, rest, rfl, starts⟩ := startsExpr_of_derives derives
    refine ⟨first, rest, rfl, ?_, ?_⟩
    · intro same
      simp [same, startsExpr] at starts
    · intro same
      rw [same, startsExpr_of_closer closer] at starts
      cases starts
  succeeds next rest follows := accepts room (endsExpr_of_follows closer follows)

theorem closedList_exprs {elements : List Written} {comma : Bool} {inner : List Token}
    {closing : Symbol} {close : Token}
    (accepts : ∀ element ∈ elements, Accepts limit .expr element.tokens element.value)
    (derive : ∀ element ∈ elements, Derives .expr element.tokens element.value)
    (joined : Joined (elements.map Written.tokens) comma inner)
    (isClose : close.kind = .symbol closing) (closer : closing ∈ closers)
    (notComma : closing ≠ .comma) (room : Room limit levels depth (inner.length + 1)) :
    closedList closing (exprWithin limit levels) ⟨inner ++ close :: rest, depth⟩ =
      .ok (elements.map Written.value, comma) ⟨rest, depth⟩ := by
  have reads : Reads (exprWithin limit levels) fun _ _ => True :=
    (reads_exprWithin limit levels).mono fun _ _ _ => trivial
  refine closedList_eq reads isClose notComma joined fun element member => ?_
  have fits := joined.length_le (List.mem_map_of_mem member)
  have length := room.tokens
  exact (accepts element member).parses (derive element member) ⟨room.levels, by omega⟩ closer

theorem parses_property {property : WrittenProperty}
    (accepts : Accepts limit .expr property.tokens property.value)
    (isIdent : property.key.kind = .identifier) (isColon : property.colon.kind = .symbol .colon)
    (room : Room limit levels depth property.phrase.length) :
    Parses (.symbol .rbrace) (Parser.property (exprWithin limit levels)) depth property.phrase
      property.pair where
  starts := ⟨property.key, _, rfl, by simp [isIdent], by simp [isIdent]⟩
  succeeds next rest follows := by
    have length := room.tokens
    simp only [WrittenProperty.phrase, List.length_cons] at length
    have ends : EndsExpr next.kind := endsExpr_of_follows (by simp [closers]) follows
    have name : ident ⟨property.phrase ++ next :: rest, depth⟩ = .ok
        ⟨property.key.text, property.key.pos⟩
        ⟨property.colon :: (property.tokens ++ next :: rest), depth⟩ := by
      rw [ident, WrittenProperty.phrase, List.cons_append,
        bind_of_ok (consume_cons isIdent (by simp))]
      rfl
    rw [Parser.property, bind_of_ok name, bind_of_ok (consume_cons isColon (by simp)),
      bind_of_ok (accepts ⟨room.levels, by omega⟩ ends)]
    rfl

/-- A phrase in brackets has room for what stands between them. -/
theorem Room.inside {inner : List Token} {opening closing : Token}
    (room : Room limit levels depth (opening :: (inner ++ [closing])).length) :
    Room limit levels depth (inner.length + 1) := by
  have length := room.tokens
  simp only [List.length_cons, List.length_append, List.length_nil] at length
  exact ⟨room.levels, by omega⟩

theorem bracketed_append {inner : List Token} {opening closing : Token} :
    opening :: (inner ++ [closing]) ++ next :: rest =
      opening :: (inner ++ closing :: next :: rest) := by
  simp

/-- One more access after a chain. Its first token is given apart. -/
theorem Accepts.access {object others : List Token} {first : Token} {base : Expr}
    (accepts : Accepts limit .chain object base)
    (access : ∀ ⦃levels depth next rest⦄,
      Room limit levels depth ((first :: others).length + 1) →
        access? (exprWithin limit levels) base ⟨first :: (others ++ next :: rest), depth⟩ =
          .ok (some value) ⟨next :: rest, depth⟩) :
    Accepts limit .chain (object ++ first :: others) value := by
  obtain ⟨folds, short, continues⟩ := accepts
  refine ⟨folds + 1, by simp; omega, ?_⟩
  intro levels depth next rest room
  have length := room.tokens
  have levelsLeft := room.levels
  rw [List.length_append, List.length_cons] at length
  have inner : Room limit levels (depth + folds) ((first :: others).length + 1) :=
    ⟨by omega, by rw [List.length_cons]; omega⟩
  have progressive : Progressive (accessRound limit (exprWithin limit levels)) :=
    progressive_accessRound (reads_exprWithin limit levels)
  rw [List.append_assoc, List.cons_append, continues ⟨levelsLeft, by omega⟩,
    progressive.iterate_of_yield (accessRound_yield (by omega) (access inner))]
  rfl

section

variable {opening closing : Token} {elements : List Written} {comma : Bool} {inner : List Token}
  (accepts : ∀ element ∈ elements, Accepts limit .expr element.tokens element.value)
  (derive : ∀ element ∈ elements, Derives .expr element.tokens element.value)
  (joined : Joined (elements.map Written.tokens) comma inner)

include accepts derive joined

theorem Accepts.array (isOpening : opening.kind = .symbol .lbracket)
    (isClosing : closing.kind = .symbol .rbracket) :
    Accepts limit .primary (opening :: (inner ++ [closing]))
      (.array opening.pos (elements.map Written.value)) := by
  intro levels depth next rest room noAccess
  rw [primary, bracketed_append, bind_of_ok (advance_cons (by simp [isOpening])), isOpening]
  change (closedList .rbracket _ >>= _) _ = _
  rw [bind_of_ok (closedList_exprs accepts derive joined isClosing (by simp [closers]) (by simp)
    room.inside)]
  rfl

theorem Accepts.tuple (isOpening : opening.kind = .symbol .lparen)
    (isTuple : comma = true ∨ elements = []) (isClosing : closing.kind = .symbol .rparen) :
    Accepts limit .primary (opening :: (inner ++ [closing]))
      (.tuple opening.pos (elements.map Written.value)) := by
  intro levels depth next rest room noAccess
  rw [primary, bracketed_append, bind_of_ok (advance_cons (by simp [isOpening])), isOpening]
  change parenthesized _ _ _ = _
  rw [parenthesized, bind_of_ok (closedList_exprs accepts derive joined isClosing
    (by simp [closers]) (by simp) room.inside)]
  rcases isTuple with rfl | rfl
  · cases elements with
    | nil => rfl
    | cons element others => cases others <;> rfl
  · rfl

theorem Accepts.call {object : List Token} {base : Expr}
    (acceptsObject : Accepts limit .chain object base) (isOpening : opening.kind = .symbol .lparen)
    (isClosing : closing.kind = .symbol .rparen) :
    Accepts limit .chain (object ++ opening :: (inner ++ [closing]))
      (.call base.pos base (elements.map Written.value)) := by
  refine acceptsObject.access fun levels depth next rest room => ?_
  have length := room.tokens
  simp only [List.length_cons, List.length_append, List.length_nil] at length
  rw [access?, bind_of_ok peek_cons, isOpening, List.append_assoc]
  change (advance >>= _) _ = _
  rw [bind_of_ok (advance_cons (by simp [isOpening])), List.singleton_append,
    bind_of_ok (closedList_exprs accepts derive joined isClosing (by simp [closers]) (by simp)
      ⟨room.levels, by omega⟩)]
  rfl

end

theorem Accepts.object {opening closing : Token} {properties : List WrittenProperty} {comma : Bool}
    {inner : List Token}
    (accepts : ∀ property ∈ properties, Accepts limit .expr property.tokens property.value)
    (isOpening : opening.kind = .symbol .lbrace)
    (keys : ∀ property ∈ properties, property.key.kind = .identifier)
    (colons : ∀ property ∈ properties, property.colon.kind = .symbol .colon)
    (joined : Joined (properties.map WrittenProperty.phrase) comma inner)
    (isClosing : closing.kind = .symbol .rbrace) :
    Accepts limit .primary (opening :: (inner ++ [closing]))
      (.object opening.pos (properties.map WrittenProperty.pair)) := by
  intro levels depth next rest room noAccess
  have reads : Reads (property (exprWithin limit levels)) fun _ _ => True :=
    (reads_property (reads_exprWithin limit levels)).mono fun _ _ _ => trivial
  have parses : ∀ property ∈ properties, Parses (.symbol .rbrace)
      (Parser.property (exprWithin limit levels)) depth property.phrase property.pair := by
    intro property member
    have fits := joined.length_le (List.mem_map_of_mem member)
    have length := room.inside.tokens
    exact parses_property (accepts property member) (keys property member) (colons property member)
      ⟨room.levels, by omega⟩
  rw [primary, bracketed_append, bind_of_ok (advance_cons (by simp [isOpening])), isOpening]
  change (closedList .rbrace _ >>= _) _ = _
  rw [bind_of_ok (closedList_eq reads isClosing (by simp) joined parses)]
  rfl

theorem primary_group {opening closing : Token} (isOpening : opening.kind = .symbol .lparen)
    (list : closedList .rparen (exprWithin limit levels)
      ⟨tokens ++ closing :: next :: rest, depth⟩ = .ok ([value], false) ⟨next :: rest, depth⟩) :
    primary limit (exprWithin limit levels)
        ⟨opening :: (tokens ++ [closing]) ++ next :: rest, depth⟩ =
      .ok value ⟨next :: rest, depth⟩ := by
  rw [primary, bracketed_append, bind_of_ok (advance_cons (by simp [isOpening])), isOpening]
  change parenthesized _ _ _ = _
  rw [parenthesized, bind_of_ok list]
  rfl

theorem Accepts.group {opening closing : Token} (isOpening : opening.kind = .symbol .lparen)
    (accepts : Accepts limit .expr tokens value) (derives : Derives .expr tokens value)
    (isClosing : closing.kind = .symbol .rparen) :
    Accepts limit .primary (opening :: (tokens ++ [closing])) value := by
  intro levels depth next rest room noAccess
  have list : closedList .rparen (exprWithin limit levels)
      ⟨tokens ++ closing :: next :: rest, depth⟩ = .ok ([value], false) ⟨next :: rest, depth⟩ := by
    have single : Joined ([⟨tokens, value⟩].map Written.tokens) false tokens := .last tokens
    exact closedList_exprs (by simpa using accepts) (by simpa using derives) single isClosing
      (by simp [closers]) (by simp) room.inside
  exact primary_group isOpening list

theorem Accepts.name {token : Token} (isName : token.kind = .identifier) :
    Accepts limit .chain [token] (.ident token.pos token.text) := by
  refine ⟨0, by simp, ?_⟩
  intro levels depth next rest room
  rw [primary, List.singleton_append, bind_of_ok (advance_cons (by simp [isName])), isName]
  exact levelled_eq _ _

theorem Accepts.member {object : List Token} {dot name : Token} {base : Expr}
    (accepts : Accepts limit .chain object base) (isDot : dot.kind = .symbol .dot)
    (isName : name.kind = .identifier) :
    Accepts limit .chain (object ++ [dot, name]) (.member base.pos base name.text) := by
  refine accepts.access fun levels depth next rest room => ?_
  rw [access?, bind_of_ok peek_cons, isDot]
  change (advance >>= _) _ = _
  rw [bind_of_ok (advance_cons (by simp [isDot])), ident, bind_assoc, List.singleton_append,
    bind_of_ok (consume_cons isName (by simp))]
  rfl

theorem Accepts.index {object key : List Token} {opening closing : Token} {base : Expr}
    (accepts : Accepts limit .chain object base) (isOpening : opening.kind = .symbol .lbracket)
    (acceptsKey : Accepts limit .expr key value) (isClosing : closing.kind = .symbol .rbracket) :
    Accepts limit .chain (object ++ opening :: (key ++ [closing]))
      (.index base.pos base value) := by
  refine accepts.access fun levels depth next rest room => ?_
  have length := room.tokens
  simp only [List.length_cons, List.length_append, List.length_nil] at length
  have ends : EndsExpr closing.kind := isClosing ▸ endsExpr_of_closer (by simp [closers])
  rw [access?, bind_of_ok peek_cons, isOpening, List.append_assoc]
  change (advance >>= _) _ = _
  rw [bind_of_ok (advance_cons (by simp [isOpening])), List.singleton_append,
    bind_of_ok (acceptsKey ⟨room.levels, by omega⟩ ends),
    bind_of_ok (consume_cons isClosing (by simp))]
  rfl

/-- An expression opens one level for what stands in it. -/
theorem exprWithin_of_ternary (room : Room limit levels depth (tokens.length + 1))
    (nonempty : 0 < tokens.length)
    (succeeds : ∀ ⦃inner⦄, Room limit inner (depth + 1) tokens.length →
      ternary limit (exprWithin limit inner) ⟨tokens ++ next :: rest, depth + 1⟩ =
        .ok value ⟨next :: rest, depth + 1⟩) :
    exprWithin limit levels ⟨tokens ++ next :: rest, depth⟩ = .ok value ⟨next :: rest, depth⟩ := by
  obtain ⟨enough, length⟩ := room
  obtain ⟨inner, rfl⟩ : ∃ inner, levels = inner + 1 := ⟨levels - 1, by omega⟩
  exact nested_of_ok (by omega) (succeeds ⟨by omega, by omega⟩)

theorem ternary_of_binary (noChoice : next.kind ≠ .symbol .question)
    (succeeds : Parser.binary limit (operand limit levels) BinaryOp.Level.all ⟨tokens, depth⟩ =
      .ok value ⟨next :: rest, depth⟩) :
    ternary limit (exprWithin limit levels) ⟨tokens, depth⟩ = .ok value ⟨next :: rest, depth⟩ := by
  change (Parser.binary limit (operand limit levels) _ >>= _) _ = _
  rw [bind_of_ok succeeds, bind_of_ok (take_cons_of_ne noChoice)]
  rfl

theorem Accepts.noChoice (accepts : Accepts limit (.binary BinaryOp.Level.all) tokens value)
    (nonempty : 0 < tokens.length) : Accepts limit .expr tokens value := by
  intro levels depth next rest room ends
  refine exprWithin_of_ternary room nonempty fun inner roomInside => ?_
  exact ternary_of_binary ends.noChoice (accepts.binary (by decide) roomInside ends.toEnds)

theorem Accepts.choice {condition yes no : List Token} {question colon : Token}
    {test first second : Expr}
    (accepts : Accepts limit (.binary BinaryOp.Level.all) condition test)
    (nonempty : 0 < condition.length) (isQuestion : question.kind = .symbol .question)
    (acceptsYes : Accepts limit .expr yes first) (isColon : colon.kind = .symbol .colon)
    (acceptsNo : Accepts limit .expr no second) :
    Accepts limit .expr (condition ++ question :: (yes ++ colon :: no))
      (.ternary test.pos test first second) := by
  intro levels depth next rest room ends
  have long : 0 < (condition ++ question :: (yes ++ colon :: no)).length := by
    rw [List.length_append, List.length_cons]
    omega
  refine exprWithin_of_ternary room long fun inner roomInside => ?_
  obtain ⟨enough, length⟩ := roomInside
  simp only [List.length_append, List.length_cons] at length
  have questionEnds : Ends BinaryOp.Level.all question.kind :=
    isQuestion ▸ ⟨by simp [StartsAccess], fun _ _ => rfl⟩
  have colonEnds : EndsExpr colon.kind := isColon ▸ endsExpr_of_closer (by simp [closers])
  change (Parser.binary limit (Parser.operand limit inner) _ >>= _) _ = _
  rw [List.append_assoc, List.cons_append, List.append_assoc, List.cons_append,
    bind_of_ok (accepts.binary (by decide) ⟨enough, by omega⟩ questionEnds),
    bind_of_ok (take_cons isQuestion (by simp))]
  change (exprWithin limit inner >>= _) _ = _
  rw [bind_of_ok (acceptsYes ⟨enough, by omega⟩ colonEnds),
    bind_of_ok (consume_cons isColon (by simp)), bind_of_ok (acceptsNo ⟨enough, by omega⟩ ends)]
  rfl

end

theorem accepts_of_derives {limit : Nat} {phrase : Phrase} {tokens : List Token} {value : Expr}
    (derives : Derives phrase tokens value) : Accepts limit phrase tokens value := by
  induction derives with
  | choice derives isQuestion _ isColon _ accepts acceptsYes acceptsNo =>
      exact accepts.choice (List.length_pos_iff.2 derives.ne_nil) isQuestion acceptsYes isColon
        acceptsNo
  | noChoice derives accepts => exact accepts.noChoice (List.length_pos_iff.2 derives.ne_nil)
  | operator _ isSign _ acceptsLeft acceptsRight => exact acceptsLeft.operator isSign acceptsRight
  | noOperator derives accepts => exact accepts.noOperator (List.length_pos_iff.2 derives.ne_nil)
  | operand _ accepts => exact accepts.operand
  | sign isSign derives accepts => exact accepts.sign isSign (List.length_pos_iff.2 derives.ne_nil)
  | noSign derives accepts => exact accepts.noSign derives
  | number isToken | string isToken | true_ isToken | false_ isToken =>
      intro levels depth next rest room noAccess
      rw [primary, List.singleton_append, bind_of_ok (advance_cons (by simp [isToken])), isToken]
      rfl
  | chain _ accepts => exact fun _ _ _ _ room noAccess => accepts.ends_chain room noAccess
  | array isOpening derive joined isClosing accepts =>
      exact .array accepts derive joined isOpening isClosing
  | object isOpening keys colons derive joined isClosing accepts =>
      exact .object accepts isOpening keys colons joined isClosing
  | group isOpening derives isClosing accepts => exact .group isOpening accepts derives isClosing
  | tuple isOpening derive joined isTuple isClosing accepts =>
      exact .tuple accepts derive joined isOpening isTuple isClosing
  | name isName => exact .name isName
  | member _ isDot isName accepts => exact accepts.member isDot isName
  | index _ isOpening _ isClosing accepts acceptsKey =>
      exact accepts.index isOpening acceptsKey isClosing
  | call _ isOpening derive joined isClosing acceptsObject accepts =>
      exact .call accepts derive joined acceptsObject isOpening isClosing

end Covenant.Parser
