import Covenant.Proofs.Parser.CommaList
import Covenant.Proofs.Syntax.Relocation
import Mathlib.Data.List.Forall2

/-! Two runs side by side. The second one reads the same tokens at other places, may open more
levels, and may find other tokens where the ones it shares with the first end. Routines that are
`Coupled` keep in step as long as the first run neither reaches the end of the shared tokens nor
opens too many levels. -/

namespace Covenant

/-- The same token at another place. The text of a kind that is always spelled alike is free. -/
structure Token.Alike (move : Position → Position) (token other : Token) : Prop where
  kind : other.kind = token.kind
  text : token.kind.lexeme? = none → other.text = token.text
  pos : other.pos = move token.pos

theorem Token.alike_moved (token : Token) (move : Position → Position) :
    Token.Alike move token { token with pos := move token.pos } :=
  ⟨rfl, fun _ => rfl, rfl⟩

theorem Token.Alike.stringValue {move : Position → Position} {token other : Token}
    (alike : Token.Alike move token other) {escaped : Bool}
    (isString : token.kind = .string escaped) :
    other.stringValue = token.stringValue := by
  rw [Token.stringValue, Token.stringValue, alike.kind, alike.text (by rw [isString]; rfl)]

namespace Parser

variable {α β : Type}

/-! Routines only go forward. -/

/-- How the tokens left at a later time come from those of a state. -/
def State.Precedes (state later : State) : Prop :=
  ∃ passed, state.rest = passed ++ later.rest ∧ ∀ token ∈ passed, token.kind ≠ .eof

namespace State.Precedes

theorem refl (state : State) : state.Precedes state :=
  ⟨[], rfl, by simp⟩

theorem trans {first second third : State} (earlier : first.Precedes second)
    (later : second.Precedes third) : first.Precedes third := by
  obtain ⟨front, frontSplit, frontGoing⟩ := earlier
  obtain ⟨back, backSplit, backGoing⟩ := later
  refine ⟨front ++ back, by rw [frontSplit, backSplit, List.append_assoc], fun token member => ?_⟩
  rcases List.mem_append.1 member with inFront | inBack
  · exact frontGoing token inFront
  · exact backGoing token inBack

theorem length_le {state later : State} (precedes : state.Precedes later) :
    later.rest.length ≤ state.rest.length := by
  obtain ⟨passed, split, _⟩ := precedes
  rw [split, List.length_append]
  omega

end State.Precedes

def finalState : EStateM.Result CompileError State α → State
  | .ok _ state => state
  | .error _ state => state

def Forward (routine : Parser α) : Prop :=
  ∀ state : State, state.Precedes (finalState (routine state))

namespace Forward

theorem of_ok {routine : Parser α} (forward : Forward routine) {state after : State} {value : α}
    (succeeds : routine state = .ok value after) : state.Precedes after := by
  have precedes := forward state
  rw [succeeds] at precedes
  exact precedes

theorem reads {routine : Parser α} (forward : Forward routine) :
    Reads routine fun _ _ => True := by
  intro state value after succeeds
  obtain ⟨passed, split, going⟩ := forward.of_ok succeeds
  exact ⟨passed, split, going, trivial⟩

theorem pure (value : α) : Forward (pure value) := State.Precedes.refl

theorem throw (error : CompileError) : Forward (throw error : Parser α) := State.Precedes.refl

theorem bind {first : Parser α} {next : α → Parser β} (forward : Forward first)
    (continues : ∀ value, Forward (next value)) : Forward (first >>= next) := by
  intro state
  have precedes := forward state
  change state.Precedes (finalState (EStateM.bind first next state))
  rw [EStateM.bind]
  cases ran : first state with
  | error error after =>
      rw [ran] at precedes
      exact precedes
  | ok value after =>
      rw [ran] at precedes
      exact precedes.trans (continues value after)

theorem peek : Forward peek := State.Precedes.refl

theorem advance : Forward advance := by
  intro state
  rw [Parser.advance]
  split
  · exact .refl state
  · next more => exact ⟨[state.next], State.rest_of_next more, by simpa using more⟩

theorem descend (limit : Nat) : Forward (descend limit) := by
  intro state
  rw [Parser.descend]
  split <;> exact ⟨[], rfl, by simp⟩

theorem nested {limit : Nat} {routine : Parser α} (forward : Forward routine) :
    Forward (nested limit routine) := by
  rintro ⟨rest, depth⟩
  rcases Nat.lt_or_ge depth limit with room | full
  · have precedes := forward ⟨rest, depth + 1⟩
    rw [nested_of_lt room]
    cases ran : routine ⟨rest, depth + 1⟩ with
    | ok value after =>
        rw [ran] at precedes
        exact precedes
    | error error after =>
        rw [ran] at precedes
        exact precedes
  · rw [nested_of_le full]
    exact .refl _

theorem levelled {routine : Parser α} (forward : Forward routine) :
    Forward (levelled routine) := by
  intro state
  have precedes := forward state
  rw [Parser.levelled]
  cases ran : routine state with
  | ok value after =>
      rw [ran] at precedes
      exact precedes
  | error error after =>
      rw [ran] at precedes
      exact precedes

theorem repeatWithin {step : α → Parser (ForInStep α)} (forward : ∀ value, Forward (step value))
    (bound : List Token) (value : α) : Forward (repeatWithin step bound value) :=
  repeatWithin_of_bind .pure (.throw _) (fun value _ => (forward value).bind) bound value

theorem iterate {step : α → Parser (ForInStep α)} (forward : ∀ value, Forward (step value))
    (value : α) : Forward (iterate step value) :=
  fun state => Forward.repeatWithin forward state.rest value state

end Forward

theorem consume_eq (kind : Token.Kind) :
    consume kind = peek >>= fun token =>
      if token.kind = kind then advance >>= fun _ => pure token
      else fail token.pos (.unexpected token.kind kind) := by
  funext state
  have peeked : peek state = .ok state.next state := rfl
  rw [consume, bind_of_ok peeked, bind_of_ok peeked]
  split
  · change advance state = EStateM.bind advance _ state
    rw [EStateM.bind, advance]
    split <;> rfl
  · rfl

/-- The routine that is one level deeper, if so many levels are left. -/
def below (limit : Nat) (inner : Nat → Parser α) : (levels : Nat) → Parser α
  | 0 => tooDeep limit
  | level + 1 => nested limit (inner level)

/-- Changes the value of a round, whether or not it is the last one. -/
def mapStep (change : α → α) : ForInStep α → ForInStep α
  | .done value => .done (change value)
  | .yield value => .yield (change value)

/-- What two runs may differ in. -/
structure Comparison where
  /-- Where the second run finds what the first one finds at a place. -/
  move : Position → Position
  /-- The tokens of either run after the shared ones. -/
  tail : List Token
  otherTail : List Token
  /-- The levels that either run may open. -/
  limit : Nat
  extra : Nat

namespace Comparison

/-- A run beside itself. -/
def same (limit : Nat) : Comparison :=
  ⟨id, [], [], limit, 0⟩

def otherLimit (runs : Comparison) : Nat :=
  runs.limit + runs.extra

theorem limit_le_otherLimit (runs : Comparison) : runs.limit ≤ runs.otherLimit :=
  Nat.le_add_right _ _

theorem otherLimit_eq {runs : Comparison} (none : runs.extra = 0) :
    runs.otherLimit = runs.limit := by
  rw [otherLimit, none, Nat.add_zero]

/-- States with the same shared tokens left and the same levels open. -/
def Aligned (runs : Comparison) (state other : State) : Prop :=
  ∃ front otherFront depth, state = ⟨front ++ runs.tail, depth⟩ ∧
    other = ⟨otherFront ++ runs.otherTail, depth⟩ ∧
    List.Forall₂ (Token.Alike runs.move) front otherFront

/-- The first run has passed all shared tokens. -/
def Left (runs : Comparison) (state : State) : Prop :=
  state.rest.length ≤ runs.tail.length

/-- How the ends of two runs compare. -/
inductive Outcome (runs : Comparison) (change : α → α) :
    EStateM.Result CompileError State α → EStateM.Result CompileError State α → Prop where
  | ok {value : α} {after otherAfter : State} : runs.Aligned after otherAfter →
      Outcome runs change (.ok value after) (.ok (change value) otherAfter)
  | error {error : CompileError} {after otherAfter : State} :
      Outcome runs change (.error error after) (.error (error.relocate runs.move) otherAfter)
  | left {result other : EStateM.Result CompileError State α} : runs.Left (finalState result) →
      Outcome runs change result other
  | tooDeep {after : State} {other : EStateM.Result CompileError State α} : 0 < runs.extra →
      Outcome runs change (.error (.resource (.nestingTooDeep runs.limit)) after) other

/-- Where the first run opens too many levels, the second goes on only if it may open more. -/
theorem Outcome.of_tooDeep {runs : Comparison} {change : α → α} {after : State}
    {other : EStateM.Result CompileError State α}
    (same : runs.extra = 0 →
      ∃ otherAfter, other = .error (.resource (.nestingTooDeep runs.limit)) otherAfter) :
    Outcome runs change (.error (.resource (.nestingTooDeep runs.limit)) after) other := by
  rcases Nat.eq_zero_or_pos runs.extra with none | some
  · obtain ⟨otherAfter, rfl⟩ := same none
    exact .error
  · exact .tooDeep some

theorem Outcome.of_ok {runs : Comparison} {change : α → α} {value : α} {after : State}
    {other : EStateM.Result CompileError State α}
    (outcome : Outcome runs change (.ok value after) other) :
    runs.Left after ∨
      ∃ otherAfter, other = .ok (change value) otherAfter ∧ runs.Aligned after otherAfter := by
  cases outcome with
  | ok aligned => exact .inr ⟨_, rfl, aligned⟩
  | left left => exact .inl left

theorem Left.of_precedes {runs : Comparison} {state later : State} (left : runs.Left state)
    (precedes : state.Precedes later) : runs.Left later :=
  Nat.le_trans precedes.length_le left

/-- Either the first run has passed all shared tokens, or both are about to read the next one. -/
theorem Aligned.cases {runs : Comparison} {state other : State}
    (aligned : runs.Aligned state other) :
    runs.Left state ∨
      ∃ token rest otherToken otherRest depth,
        state = ⟨token :: rest, depth⟩ ∧ other = ⟨otherToken :: otherRest, depth⟩ ∧
        Token.Alike runs.move token otherToken ∧
        runs.Aligned ⟨rest, depth⟩ ⟨otherRest, depth⟩ := by
  obtain ⟨front, otherFront, depth, rfl, rfl, alike⟩ := aligned
  cases alike with
  | nil => exact .inl (Nat.le_refl _)
  | @cons token other front otherFront first others =>
      exact .inr ⟨token, _, other, _, depth, rfl, rfl, first, front, otherFront, depth, rfl, rfl,
        others⟩

end Comparison

open Comparison

/-- Two routines that keep in step. The value of the second is that of the first, changed. -/
structure Coupled (runs : Comparison) (change : α → α) (routine other : Parser α) : Prop where
  forward : Forward routine
  outcome : ∀ ⦃state otherState : State⦄, runs.Aligned state otherState →
    Outcome runs change (routine state) (other otherState)

namespace Coupled

variable {runs : Comparison} {change : α → α} {changeNext : β → β}

theorem pure {value other : α} (same : other = change value) :
    Coupled runs change (pure value) (pure other) where
  forward := .pure value
  outcome _ _ aligned := same ▸ .ok aligned

theorem fail {pos otherPos : Position} (moved : otherPos = runs.move pos) (error : ParseError) :
    Coupled runs change (fail pos error) (fail otherPos error) where
  forward := .throw _
  outcome _ _ _ := moved ▸ .error

theorem tooDeep {other : Parser α} (same : runs.extra = 0 → other = tooDeep runs.limit) :
    Coupled runs change (tooDeep runs.limit) other where
  forward := .throw _
  outcome _ otherState _ := .of_tooDeep fun none => ⟨otherState, by rw [same none]; rfl⟩

theorem bind {first otherFirst : Parser α} {next otherNext : α → Parser β}
    (coupled : Coupled runs change first otherFirst)
    (continues : ∀ value, Coupled runs changeNext (next value) (otherNext (change value))) :
    Coupled runs changeNext (first >>= next) (otherFirst >>= otherNext) where
  forward := coupled.forward.bind fun value => (continues value).forward
  outcome state otherState aligned := by
    change Outcome runs changeNext (EStateM.bind first next state)
      (EStateM.bind otherFirst otherNext otherState)
    have outcome := coupled.outcome aligned
    simp only [EStateM.bind]
    generalize first state = result at outcome ⊢
    generalize otherFirst otherState = otherResult at outcome ⊢
    cases outcome with
    | ok alignedAfter => exact (continues _).outcome alignedAfter
    | error => exact .error
    | left left =>
        cases result with
        | error error after => exact .left left
        | ok value after => exact .left (left.of_precedes ((continues value).forward after))
    | tooDeep some => exact .tooDeep some

theorem ite {condition : Prop} [Decidable condition] {yes no otherYes otherNo : Parser α}
    (coupledYes : condition → Coupled runs change yes otherYes)
    (coupledNo : ¬condition → Coupled runs change no otherNo) :
    Coupled runs change (if condition then yes else no)
      (if condition then otherYes else otherNo) := by
  by_cases holds : condition
  · simpa only [if_pos holds] using coupledYes holds
  · simpa only [if_neg holds] using coupledNo holds

theorem token_bind {read : Parser Token} (forward : Forward read)
    (reads : ∀ {token otherToken rest otherRest depth},
      Token.Alike runs.move token otherToken → runs.Aligned ⟨rest, depth⟩ ⟨otherRest, depth⟩ →
      runs.Aligned ⟨token :: rest, depth⟩ ⟨otherToken :: otherRest, depth⟩ →
      ∃ after otherAfter, read ⟨token :: rest, depth⟩ = .ok token after ∧
        read ⟨otherToken :: otherRest, depth⟩ = .ok otherToken otherAfter ∧
        runs.Aligned after otherAfter)
    {next otherNext : Token → Parser β}
    (continues : ∀ token other, Token.Alike runs.move token other →
      Coupled runs changeNext (next token) (otherNext other)) :
    Coupled runs changeNext (read >>= next) (read >>= otherNext) := by
  have forwardNext : ∀ token, Forward (next token) := fun token =>
    (continues token _ (token.alike_moved runs.move)).forward
  refine ⟨forward.bind forwardNext, fun state otherState aligned => ?_⟩
  rcases aligned.cases with left |
    ⟨token, rest, otherToken, otherRest, depth, rfl, rfl, alike, alignedRest⟩
  · exact .left (left.of_precedes (forward.bind forwardNext state))
  · obtain ⟨after, otherAfter, ran, otherRan, alignedAfter⟩ := reads alike alignedRest aligned
    rw [bind_of_ok ran, bind_of_ok otherRan]
    exact (continues token otherToken alike).outcome alignedAfter

theorem peek_bind {next otherNext : Token → Parser β}
    (continues : ∀ token other, Token.Alike runs.move token other →
      Coupled runs changeNext (next token) (otherNext other)) :
    Coupled runs changeNext (peek >>= next) (peek >>= otherNext) :=
  token_bind .peek (fun _ _ aligned => ⟨_, _, peek_cons, peek_cons, aligned⟩) continues

theorem advance_bind {next otherNext : Token → Parser β}
    (continues : ∀ token other, Token.Alike runs.move token other →
      Coupled runs changeNext (next token) (otherNext other)) :
    Coupled runs changeNext (advance >>= next) (advance >>= otherNext) := by
  refine token_bind .advance (fun alike alignedRest aligned => ?_) continues
  rename_i token otherToken rest otherRest depth
  by_cases ended : token.kind = .eof
  · exact ⟨_, _, if_pos ended, if_pos (alike.kind.trans ended), aligned⟩
  · exact ⟨_, _, advance_cons ended, advance_cons (alike.kind ▸ ended), alignedRest⟩

theorem consume_bind {kind : Token.Kind} {next otherNext : Token → Parser β}
    (continues : ∀ token other, token.kind = kind → Token.Alike runs.move token other →
      Coupled runs changeNext (next token) (otherNext other)) :
    Coupled runs changeNext (consume kind >>= next) (consume kind >>= otherNext) := by
  simp only [consume_eq, bind_assoc]
  refine .peek_bind fun token other alike => ?_
  rw [alike.kind]
  by_cases same : token.kind = kind
  · simp only [if_pos same, bind_assoc, pure_bind]
    exact .advance_bind fun _ _ _ => continues token other same alike
  · simp only [if_neg same]
    exact .fail alike.pos _

theorem take (kind : Token.Kind) : Coupled runs id (take kind) (take kind) := by
  refine .peek_bind fun token other alike => ?_
  rw [alike.kind]
  exact .ite (fun _ => .advance_bind fun _ _ _ => .pure rfl) fun _ => .pure rfl

theorem ident : Coupled runs (Ident.relocate runs.move) ident ident := by
  refine .consume_bind fun token other isIdent alike => .pure ?_
  rw [alike.text (by rw [isIdent]; rfl), alike.pos]
  rfl

theorem atEnd (closing : Token.Kind) : Coupled runs id (atEnd closing) (atEnd closing) :=
  .peek_bind fun _ _ alike => .pure (by rw [alike.kind]; rfl)

theorem isWord (word : String) : Coupled runs id (isWord word) (isWord word) := by
  refine .peek_bind fun token other alike => .pure ?_
  rw [alike.kind]
  by_cases isIdent : token.kind = .identifier
  · rw [alike.text (by rw [isIdent]; rfl)]
    rfl
  · simp [isIdent]

theorem takeWord (word : String) : Coupled runs id (takeWord word) (takeWord word) :=
  (isWord word).bind fun _ => .ite (fun _ => .advance_bind fun _ _ _ => .pure rfl)
    fun _ => .pure rfl

/-! Nesting. -/

theorem descend : Coupled runs id (descend runs.limit) (descend runs.otherLimit) where
  forward := .descend _
  outcome state otherState aligned := by
    obtain ⟨front, otherFront, depth, rfl, rfl, alike⟩ := aligned
    rcases Nat.lt_or_ge depth runs.limit with room | full
    · rw [descend_of_lt room, descend_of_lt (Nat.lt_of_lt_of_le room runs.limit_le_otherLimit)]
      exact .ok ⟨front, otherFront, depth + 1, rfl, rfl, alike⟩
    · rw [descend_of_le full]
      exact .of_tooDeep fun none => ⟨_, by rw [otherLimit_eq none, descend_of_le full]⟩

theorem nested {routine other : Parser α} (coupled : Coupled runs change routine other) :
    Coupled runs change (nested runs.limit routine) (nested runs.otherLimit other) where
  forward := .nested coupled.forward
  outcome state otherState aligned := by
    obtain ⟨front, otherFront, depth, rfl, rfl, alike⟩ := aligned
    rcases Nat.lt_or_ge depth runs.limit with room | full
    · rw [nested_of_lt room, nested_of_lt (Nat.lt_of_lt_of_le room runs.limit_le_otherLimit)]
      have outcome := coupled.outcome ⟨front, otherFront, depth + 1, rfl, rfl, alike⟩
      generalize routine ⟨front ++ runs.tail, depth + 1⟩ = result at outcome ⊢
      generalize other ⟨otherFront ++ runs.otherTail, depth + 1⟩ = otherResult at outcome ⊢
      cases outcome with
      | ok alignedAfter =>
          obtain ⟨back, otherBack, after, rfl, rfl, alikeAfter⟩ := alignedAfter
          exact .ok ⟨back, otherBack, after - 1, rfl, rfl, alikeAfter⟩
      | error => exact .error
      | left left => cases result <;> exact .left left
      | tooDeep some => exact .tooDeep some
    · rw [nested_of_le full]
      exact .of_tooDeep fun none => ⟨_, by rw [otherLimit_eq none, nested_of_le full]⟩

theorem levelled {routine other : Parser α} (coupled : Coupled runs change routine other) :
    Coupled runs change (levelled routine) (levelled other) where
  forward := .levelled coupled.forward
  outcome state otherState aligned := by
    have outcome := coupled.outcome aligned
    obtain ⟨front, otherFront, depth, rfl, rfl, alike⟩ := aligned
    rw [levelled_eq, levelled_eq]
    generalize routine ⟨front ++ runs.tail, depth⟩ = result at outcome ⊢
    generalize other ⟨otherFront ++ runs.otherTail, depth⟩ = otherResult at outcome ⊢
    cases outcome with
    | ok alignedAfter =>
        obtain ⟨back, otherBack, after, rfl, rfl, alikeAfter⟩ := alignedAfter
        exact .ok ⟨back, otherBack, depth, rfl, rfl, alikeAfter⟩
    | error => exact .error
    | left left => cases result <;> exact .left left
    | tooDeep some => exact .tooDeep some

/-- Routines inside each other keep in step if the inner ones do. Where no level is left in the
first run, the second one may still have some. -/
theorem below {inner otherInner : Nat → Parser α} {levels : Nat}
    (coupled : ∀ level < levels,
      Coupled runs change (inner level) (otherInner (level + runs.extra))) :
    Coupled runs change (below runs.limit inner levels)
      (below runs.otherLimit otherInner (levels + runs.extra)) := by
  cases levels with
  | zero =>
      rw [Nat.zero_add]
      exact .tooDeep fun none => by rw [none, Comparison.otherLimit_eq none, Parser.below]
  | succ level =>
      rw [Nat.succ_add]
      exact (coupled level (Nat.lt_succ_self level)).nested

/-! Repetition. Only the rounds of the first run have to pass tokens: where the second run is out of
rounds, the first one is at the end of the shared tokens. -/

section

variable {step otherStep : α → Parser (ForInStep α)}
  (round : ∀ value, Coupled runs (mapStep change) (step value) (otherStep (change value)))
  (progressive : Progressive step)

include round progressive

/-- The rounds that follow are fewer tokens from the end of the shared ones. -/
theorem outcome_unrolled {rounds otherRounds : α → Parser α} {front otherFront : List Token}
    {value : α} {depth : Nat} (forward : ∀ next, Forward (rounds next))
    (alike : List.Forall₂ (Token.Alike runs.move) front otherFront)
    (follow : ∀ {back otherBack : List Token} {next : α} {depth : Nat},
      back.length < front.length → List.Forall₂ (Token.Alike runs.move) back otherBack →
        Outcome runs change (rounds next ⟨back ++ runs.tail, depth⟩)
          (otherRounds (change next) ⟨otherBack ++ runs.otherTail, depth⟩)) :
    Outcome runs change (unrolled step rounds value ⟨front ++ runs.tail, depth⟩)
      (unrolled otherStep otherRounds (change value) ⟨otherFront ++ runs.otherTail, depth⟩) := by
  have outcome := (round value).outcome ⟨front, otherFront, depth, rfl, rfl, alike⟩
  have progressed := @progressive value ⟨front ++ runs.tail, depth⟩
  change Outcome runs change (EStateM.bind _ _ _) (EStateM.bind _ _ _)
  simp only [EStateM.bind]
  generalize step value ⟨front ++ runs.tail, depth⟩ = result at outcome progressed ⊢
  generalize otherStep (change value) ⟨otherFront ++ runs.otherTail, depth⟩ = otherResult
    at outcome ⊢
  cases outcome with
  | error => exact .error
  | tooDeep some => exact .tooDeep some
  | left left =>
      -- Rounds only go forward, so a run that has left the shared tokens stays behind them.
      cases result with
      | error error after => exact .left left
      | ok result after =>
          cases result with
          | done result => exact .left left
          | yield next => exact .left (left.of_precedes (forward _ _))
  | @ok result after otherAfter alignedAfter =>
      cases result with
      | done result => exact .ok alignedAfter
      | yield next =>
          obtain ⟨back, otherBack, depthAfter, rfl, rfl, alikeAfter⟩ := alignedAfter
          obtain ⟨passed, split, _, nonempty⟩ := progressed rfl
          have shorter : back.length < front.length := by
            have lengths := congrArg List.length split
            have := List.length_pos_iff.2 nonempty
            simp only [List.length_append] at lengths
            omega
          exact follow shorter alikeAfter

theorem outcome_repeatWithin {bound otherBound front otherFront : List Token} {value : α}
    {depth : Nat} (alike : List.Forall₂ (Token.Alike runs.move) front otherFront)
    (long : front.length ≤ bound.length) (longToo : front.length ≤ otherBound.length) :
    Outcome runs change (repeatWithin step bound value ⟨front ++ runs.tail, depth⟩)
      (repeatWithin otherStep otherBound (change value) ⟨otherFront ++ runs.otherTail, depth⟩) := by
  have forward := Forward.repeatWithin fun value => (round value).forward
  induction bound generalizing otherBound front otherFront value depth with
  | nil =>
      cases otherBound <;> exact outcome_unrolled round progressive (fun _ => .throw _) alike
        fun shorter _ => (Nat.not_lt_zero _ (Nat.lt_of_lt_of_le shorter long)).elim
  | cons token bound induction =>
      cases otherBound with
      | nil =>
          refine outcome_unrolled round progressive (forward bound) alike fun shorter _ => ?_
          exact (Nat.not_lt_zero _ (Nat.lt_of_lt_of_le shorter longToo)).elim
      | cons otherToken otherBound =>
          refine outcome_unrolled round progressive (forward bound) alike fun shorter alikeOn => ?_
          simp only [List.length_cons] at long longToo
          exact induction alikeOn (by omega) (by omega)

theorem iterate (value : α) :
    Coupled runs change (iterate step value) (iterate otherStep (change value)) where
  forward := .iterate (fun value => (round value).forward) value
  outcome state otherState aligned := by
    obtain ⟨front, otherFront, depth, rfl, rfl, alike⟩ := aligned
    exact outcome_repeatWithin round progressive alike (by simp) (by simp [alike.length_eq])

end

section

variable {item other : Parser α} (coupled : Coupled runs change item other)

include coupled

theorem manyRound (closing : Token.Kind) (items : List α) :
    Coupled runs (mapStep (List.map change)) (manyRound closing item items)
      (manyRound closing other (items.map change)) :=
  (atEnd closing).bind fun _ => .ite (fun _ => .pure rfl) fun _ => coupled.bind fun _ => .pure rfl

theorem commaRound (closing : Token.Kind) (list : List α × Bool) :
    Coupled runs (mapStep (Prod.map (List.map change) id)) (commaRound closing item list)
      (commaRound closing other (Prod.map (List.map change) id list)) := by
  refine (atEnd closing).bind fun _ => .ite (fun _ => .pure rfl) fun _ => ?_
  exact coupled.bind fun _ => (take _).bind fun _ => .ite (fun _ => .pure rfl) fun _ => .pure rfl

theorem commaList (closing : Token.Kind) :
    Coupled runs (Prod.map (List.map change) id) (commaList closing item)
      (commaList closing other) := by
  have progressive := @progressive_commaRound _ closing _ coupled.forward.reads
  refine (iterate (coupled.commaRound closing) progressive ([], false)).bind fun list => .pure ?_
  simp [Prod.map, List.map_reverse]

theorem closedList (closing : Symbol) :
    Coupled runs (Prod.map (List.map change) id) (closedList closing item)
      (closedList closing other) :=
  (coupled.commaList _).bind fun _ => .consume_bind fun _ _ _ _ => .pure rfl

end

end Coupled

/-- Routines that keep in step and pass tokens where they succeed. -/
structure Advancing (runs : Comparison) (change : α → α) (routine other : Parser α) : Prop
    extends Coupled runs change routine other where
  passes : Reads routine fun passed _ => passed ≠ []

namespace Advancing

variable {runs : Comparison} {change : α → α} {changeNext : β → β}

theorem bind {first otherFirst : Parser α} {next otherNext : α → Parser β}
    (advancing : Advancing runs change first otherFirst)
    (continues : ∀ value, Coupled runs changeNext (next value) (otherNext (change value))) :
    Advancing runs changeNext (first >>= next) (otherFirst >>= otherNext) where
  toCoupled := advancing.toCoupled.bind continues
  passes := advancing.passes.bind fun _ value nonempty =>
    (continues value).forward.reads.mono fun _ _ _ => by simp [nonempty]

theorem peek_bind {next otherNext : Token → Parser β}
    (continues : ∀ token other, Token.Alike runs.move token other →
      Advancing runs changeNext (next token) (otherNext other)) :
    Advancing runs changeNext (peek >>= next) (peek >>= otherNext) where
  toCoupled := .peek_bind fun token other alike => (continues token other alike).toCoupled
  passes := .peek_bind fun token =>
    .of_reads (continues token _ (token.alike_moved runs.move)).passes

theorem consume_bind {kind : Token.Kind} (going : kind ≠ .eof) {next otherNext : Token → Parser β}
    (continues : ∀ token other, token.kind = kind → Token.Alike runs.move token other →
      Coupled runs changeNext (next token) (otherNext other)) :
    Advancing runs changeNext (consume kind >>= next) (consume kind >>= otherNext) where
  toCoupled := .consume_bind continues
  passes := (reads_consume going).bind fun _ token ⟨passed, isKind⟩ =>
    (continues token _ isKind (token.alike_moved runs.move)).forward.reads.mono
      fun _ _ _ => by simp [passed]

theorem ident : Advancing runs (Ident.relocate runs.move) ident ident where
  toCoupled := .ident
  passes := reads_ident.mono fun _ _ ⟨_, passed, _⟩ => by simp [passed]

theorem many {item other : Parser α} (advancing : Advancing runs change item other)
    (closing : Token.Kind) :
    Coupled runs (List.map change) (many closing item) (many closing other) :=
  (Coupled.iterate (advancing.manyRound closing)
    (progressive_manyRound advancing.passes) []).bind fun _ => .pure List.map_reverse.symm

end Advancing

/-! Whole inputs. The token that ends an input is never passed, so that all tokens can be shared. -/

theorem Coupled.run_eq {runs : Comparison} {change : α → α} {routine other : Parser α}
    (coupled : Coupled runs change routine other) (tail : runs.tail = [])
    (otherTail : runs.otherTail = []) {tokens others : List Token}
    (ended : ∃ last ∈ tokens, last.kind = .eof)
    (alike : List.Forall₂ (Token.Alike runs.move) tokens others) :
    run other others = ((run routine tokens).map change).mapError (.relocate runs.move) ∨
      run routine tokens = .error (.resource (.nestingTooDeep runs.limit)) ∧ 0 < runs.extra := by
  have aligned : runs.Aligned ⟨tokens, 0⟩ ⟨others, 0⟩ :=
    ⟨tokens, others, 0, by rw [tail, List.append_nil], by rw [otherTail, List.append_nil], alike⟩
  have outcome := coupled.outcome aligned
  have forward := coupled.forward ⟨tokens, 0⟩
  simp only [run]
  generalize routine ⟨tokens, 0⟩ = result at outcome forward ⊢
  generalize other ⟨others, 0⟩ = otherResult at outcome ⊢
  cases outcome with
  | ok => exact .inl rfl
  | error => exact .inl rfl
  | tooDeep some => exact .inr ⟨rfl, some⟩
  | left left =>
      obtain ⟨last, member, ends⟩ := ended
      obtain ⟨passed, split, going⟩ := forward
      rw [Comparison.Left, tail] at left
      rw [List.length_eq_zero_iff.1 (Nat.le_zero.1 left), List.append_nil] at split
      exact (going last (split ▸ member) ends).elim

/-- With the same levels to open, the second run does the same at other places. -/
theorem Coupled.run_eq_relocate {move : Position → Position} {limit : Nat} {change : α → α}
    {routine other : Parser α} (coupled : Coupled ⟨move, [], [], limit, 0⟩ change routine other)
    {tokens others : List Token} (ended : ∃ last ∈ tokens, last.kind = .eof)
    (alike : List.Forall₂ (Token.Alike move) tokens others) :
    run other others = ((run routine tokens).map change).mapError (.relocate move) := by
  rcases coupled.run_eq rfl rfl ended alike with same | ⟨_, more⟩
  · exact same
  · exact (Nat.lt_irrefl 0 more).elim

end Parser

end Covenant
