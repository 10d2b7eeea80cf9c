import Covenant.Proofs.Program.Balance
import Covenant.Proofs.Program.Coupling
import Covenant.Proofs.Program.Reading
import Mathlib

/-! The levels that recursive routines are given do not run out. Every routine passes a token before
it calls itself, so levels for the tokens left are as good as any number of them. -/

namespace Covenant.Parser

variable {α β : Type}

/-- The routines do the same in a state, and no success leads back behind it. -/
structure SameAt (state : State) (routine other : Parser α) : Prop where
  eq : routine state = other state
  leads : ∀ {value : α} {after : State}, routine state = .ok value after →
    state.depth ≤ after.depth ∧ after.rest.length ≤ state.rest.length

/-- The routines do the same where so many levels are open and no more tokens than `count` are
left. -/
def SameWithin (depth count : Nat) (routine other : Parser α) : Prop :=
  ∀ state : State, depth ≤ state.depth → state.rest.length ≤ count → SameAt state routine other

/-- The routines do the same where fewer tokens than `count` are left. -/
def SameBelow (depth count : Nat) (routine other : Parser α) : Prop :=
  ∀ fewer < count, SameWithin depth fewer routine other

/-- The routines do the same where `next` comes first. -/
def SameBefore (next : Token) (depth count : Nat) (routine other : Parser α) : Prop :=
  ∀ state : State, state.next = next → depth ≤ state.depth → state.rest.length ≤ count →
    SameAt state routine other

section

variable {depth count : Nat} {token : Token}

theorem SameAt.bind {state : State} {first other : Parser α} {next otherNext : α → Parser β}
    (same : SameAt state first other)
    (continues : ∀ value between, first state = .ok value between →
      SameAt between (next value) (otherNext value)) :
    SameAt state (first >>= next) (other >>= otherNext) := by
  cases outcome : first state with
  | error error after =>
      have failed := bind_of_error outcome next
      refine ⟨?_, fun succeeds => ?_⟩
      · rw [failed, bind_of_error (same.eq ▸ outcome)]
      · rw [failed] at succeeds
        cases succeeds
  | ok value between =>
      have started := bind_of_ok outcome next
      have rest := continues value between outcome
      refine ⟨?_, fun succeeds => ?_⟩
      · rw [started, bind_of_ok (same.eq ▸ outcome), rest.eq]
      · rw [started] at succeeds
        obtain ⟨deeper, fewer⟩ := same.leads outcome
        obtain ⟨deepest, fewest⟩ := rest.leads succeeds
        exact ⟨deeper.trans deepest, fewest.trans fewer⟩

theorem SameWithin.mono {routine other : Parser α} {deeper fewer : Nat}
    (same : SameWithin depth count routine other) (isDeeper : depth ≤ deeper)
    (isFewer : fewer ≤ count) : SameWithin deeper fewer routine other :=
  fun state within left => same state (isDeeper.trans within) (left.trans isFewer)

theorem SameWithin.toBelow {routine other : Parser α}
    (same : SameWithin depth count routine other) : SameBelow depth count routine other :=
  fun _ less => same.mono (Nat.le_refl _) less.le

theorem SameBelow.mono {routine other : Parser α} {deeper fewer : Nat}
    (same : SameBelow depth count routine other) (isDeeper : depth ≤ deeper)
    (isFewer : fewer ≤ count) : SameBelow deeper fewer routine other :=
  fun _ less => (same _ (less.trans_le isFewer)).mono isDeeper (Nat.le_refl _)

/-! A routine that contains no other one in which the two could differ. -/

theorem SameWithin.refl {routine : Parser α} {Result : List Token → α → Prop}
    (balanced : Balanced routine) (reads : Reads routine Result) :
    SameWithin depth count routine routine := by
  refine fun state _ _ => ⟨rfl, fun succeeds => ⟨(balanced succeeds).ge, ?_⟩⟩
  obtain ⟨passed, split, -⟩ := reads succeeds
  rw [split, List.length_append]
  omega

namespace SameBefore

theorem of_same {routine other : Parser α} (same : SameWithin depth count routine other) :
    SameBefore token depth count routine other :=
  fun state _ => same state

theorem advance_bind {next other : Token → Parser β} (going : token.kind ≠ .eof)
    (continues : SameBelow depth count (next token) (other token)) :
    SameBefore token depth count (advance >>= next) (advance >>= other) := by
  rintro state rfl within left
  refine SameAt.bind (SameWithin.refl .advance reads_advance state within left) ?_
  intro value between passed
  obtain ⟨rfl, rfl⟩ : state.next = value ∧ State.mk state.rest.tail state.depth = between := by
    rw [advance, if_neg going] at passed
    cases passed
    exact ⟨rfl, rfl⟩
  have length := congrArg List.length (State.rest_of_next going)
  rw [List.length_cons] at length
  have fewer : state.rest.tail.length < count := by omega
  exact continues _ fewer ⟨state.rest.tail, state.depth⟩ within (Nat.le_refl _)

theorem descend_bind {limit : Nat} {next other : Unit → Parser β}
    (continues : SameBefore token depth count (next ()) (other ())) :
    SameBefore token depth count (descend limit >>= next) (descend limit >>= other) := by
  intro state isNext within left
  rcases Nat.lt_or_ge state.depth limit with room | full
  · have opened : descend limit state = .ok () ⟨state.rest, state.depth + 1⟩ := descend_of_lt room
    refine SameAt.bind ⟨rfl, fun succeeds => ?_⟩ fun _ between started => ?_
    · rw [opened] at succeeds
      cases succeeds
      exact ⟨Nat.le_succ _, Nat.le_refl _⟩
    · rw [opened] at started
      cases started
      exact continues _ isNext (Nat.le_succ_of_le within) left
  · have failed : descend limit state = .error (.resource (.nestingTooDeep limit)) state :=
      descend_of_le full
    refine SameAt.bind ⟨rfl, fun succeeds => ?_⟩ fun _ between started => ?_
    · rw [failed] at succeeds
      cases succeeds
    · rw [failed] at started
      cases started

end SameBefore

namespace SameWithin

theorem pure (value : α) : SameWithin depth count (pure value : Parser α) (pure value) :=
  .refl (.pure value) (@Reads.pure _ (fun _ _ => True) value trivial)

theorem throw (error : CompileError) :
    SameWithin depth count (throw error : Parser α) (throw error) :=
  .refl (.throw error) (@Reads.throw _ (fun _ _ => True) error)

theorem bind {first other : Parser α} {next otherNext : α → Parser β}
    (same : SameWithin depth count first other)
    (continues : ∀ value, SameWithin depth count (next value) (otherNext value)) :
    SameWithin depth count (first >>= next) (other >>= otherNext) := by
  intro state within left
  have here := same state within left
  refine here.bind fun value between started => ?_
  obtain ⟨deeper, fewer⟩ := here.leads started
  exact continues value between (within.trans deeper) (fewer.trans left)

theorem ite {condition : Prop} [Decidable condition] {yes no otherYes otherNo : Parser α}
    (sameYes : SameWithin depth count yes otherYes) (sameNo : SameWithin depth count no otherNo) :
    SameWithin depth count (if condition then yes else no)
      (if condition then otherYes else otherNo) := by
  split
  · exact sameYes
  · exact sameNo

theorem peek_bind {next other : Token → Parser β}
    (continues : ∀ token, SameBefore token depth count (next token) (other token)) :
    SameWithin depth count (peek >>= next) (peek >>= other) := by
  intro state within left
  have looks : Reads peek fun _ _ => True := fun state _ _ started => by
    cases started
    exact ⟨[], rfl, by simp, trivial⟩
  refine (refl .peek looks state within left).bind fun value between started => ?_
  cases started
  exact continues state.next state rfl within left

/-- A token that is passed without a look at it may be the last one. -/
theorem advance_bind {next other : Token → Parser β}
    (continues : ∀ token, token.kind ≠ .eof → SameBelow depth count (next token) (other token))
    (ends : ∀ token, token.kind = .eof → SameWithin depth count (next token) (other token)) :
    SameWithin depth count (advance >>= next) (advance >>= other) := by
  intro state within left
  by_cases ended : state.next.kind = .eof
  · refine (refl .advance reads_advance state within left).bind fun value between started => ?_
    rw [advance, if_pos ended] at started
    cases started
    exact ends state.next ended state within left
  · exact SameBefore.advance_bind ended (continues state.next ended) state rfl within left

theorem descend_bind {limit : Nat} {next other : Unit → Parser β}
    (continues : SameWithin depth count (next ()) (other ())) :
    SameWithin depth count (descend limit >>= next) (descend limit >>= other) :=
  fun state => SameBefore.descend_bind (.of_same continues) state rfl

theorem take_bind {kind : Token.Kind} {next other : Bool → Parser β} (going : kind ≠ .eof)
    (taken : SameBelow depth count (next true) (other true))
    (left : SameWithin depth count (next false) (other false)) :
    SameWithin depth count (take kind >>= next) (take kind >>= other) := by
  rw [take, bind_assoc, bind_assoc]
  refine .peek_bind fun token => ?_
  by_cases same : token.kind = kind
  · simp only [if_pos same, bind_assoc, pure_bind]
    exact .advance_bind (same ▸ going) taken
  · simp only [if_neg same, pure_bind]
    exact .of_same left

theorem consume_bind {kind : Token.Kind} {next other : Token → Parser β} (going : kind ≠ .eof)
    (continues : ∀ token, SameBelow depth count (next token) (other token)) :
    SameWithin depth count (consume kind >>= next) (consume kind >>= other) := by
  rw [consume, bind_assoc, bind_assoc]
  refine .peek_bind fun token => ?_
  by_cases same : token.kind = kind
  · rw [if_pos same]
    exact .advance_bind (same ▸ going) (continues token)
  · rw [if_neg same]
    refine fun state _ within left => (throw _ state within left).bind ?_
    rintro _ _ ⟨⟩

theorem nested {limit : Nat} {routine other : Parser α}
    (same : SameWithin (depth + 1) count routine other) :
    SameWithin depth count (nested limit routine) (nested limit other) := by
  rintro ⟨rest, here⟩ within left
  rcases Nat.lt_or_ge here limit with room | full
  · have inner := same ⟨rest, here + 1⟩ (Nat.succ_le_succ within) left
    refine ⟨by rw [nested_of_lt room, nested_of_lt room, inner.eq], fun succeeds => ?_⟩
    rw [nested_of_lt room] at succeeds
    split at succeeds
    · next ended =>
        cases succeeds
        obtain ⟨deeper, fewer⟩ := inner.leads ended
        exact ⟨Nat.le_sub_of_add_le deeper, fewer⟩
    · cases succeeds
  · refine ⟨by rw [nested_of_le full, nested_of_le full], fun succeeds => ?_⟩
    rw [nested_of_le full] at succeeds
    cases succeeds

theorem levelled {routine other : Parser α} (same : SameWithin depth count routine other) :
    SameWithin depth count (levelled routine) (levelled other) := by
  intro state within left
  have inner := same state within left
  refine ⟨by rw [levelled_eq, levelled_eq, inner.eq], fun succeeds => ?_⟩
  rw [levelled_eq] at succeeds
  cases outcome : routine state with
  | ok value after =>
      rw [outcome] at succeeds
      cases succeeds
      exact ⟨Nat.le_refl _, (inner.leads outcome).2⟩
  | error error after =>
      rw [outcome] at succeeds
      cases succeeds

theorem iterate {step other : α → Parser (ForInStep α)}
    (same : ∀ value, SameWithin depth count (step value) (other value)) (value : α) :
    SameWithin depth count (iterate step value) (iterate other value) := by
  have round {rounds others : α → Parser α}
      (sameOn : ∀ value, SameWithin depth count (rounds value) (others value)) (value : α) :
      SameWithin depth count (unrolled step rounds value) (unrolled other others value) := by
    refine (same value).bind fun result => ?_
    cases result with
    | done result => exact pure result
    | yield next => exact sameOn next
  have rounds : ∀ bound value, SameWithin depth count (repeatWithin step bound value)
      (repeatWithin other bound value) := by
    intro bound
    induction bound with
    | nil => exact round fun _ => throw _
    | cons token bound induction => exact round induction
  intro state within left
  have here := rounds state.rest value state within left
  exact ⟨here.eq, here.leads⟩

section

variable {item other : Parser α} (same : SameWithin depth count item other)

include same

theorem many (closing : Token.Kind) :
    SameWithin depth count (many closing item) (many closing other) := by
  refine (iterate (fun items => ?_) []).bind fun _ => pure _
  refine (refl (.atEnd closing) (reads_atEnd closing)).bind fun _ => .ite (pure _) ?_
  exact same.bind fun _ => pure _

theorem closedList (closing : Symbol) :
    SameWithin depth count (closedList closing item) (closedList closing other) := by
  have rounds (list : List α × Bool) : SameWithin depth count
      (commaRound (.symbol closing) item list) (commaRound (.symbol closing) other list) := by
    refine (refl (.atEnd _) (reads_atEnd _)).bind fun _ => .ite (pure _) (same.bind fun _ => ?_)
    exact take_bind (by simp) (pure _).toBelow (pure _)
  refine ((iterate rounds _).bind fun _ => pure _).bind fun _ => ?_
  exact consume_bind (by simp) fun _ => (pure _).toBelow

end

end SameWithin

end

/-- So many levels are enough: they last until the limit is reached, or until no token is left. -/
def Enough (limit depth count levels : Nat) : Prop :=
  limit ≤ depth + levels ∨ count < levels

theorem enough_limit (limit depth count : Nat) : Enough limit depth count limit :=
  .inl (Nat.le_add_left _ _)

theorem Enough.mono {limit depth count fewer levels : Nat}
    (enough : Enough limit depth count levels) (less : fewer < count) :
    Enough limit depth fewer levels := by
  unfold Enough at enough ⊢
  omega

section

variable {limit depth count levels otherLevels : Nat}

/-- Where there is no level left, none can be opened. -/
theorem SameWithin.nest {inner other : Nat → Parser α} (enough : Enough limit depth count levels)
    (otherEnough : Enough limit depth count otherLevels)
    (same : ∀ level otherLevel, levels = level + 1 → otherLevels = otherLevel + 1 →
      SameWithin (depth + 1) count (inner level) (other otherLevel)) :
    SameWithin depth count (Parser.below limit inner levels)
      (Parser.below limit other otherLevels) := by
  have full {levels : Nat} (none : levels = 0) (enough : Enough limit depth count levels)
      (state : State) (within : depth ≤ state.depth) : limit ≤ state.depth := by
    unfold Enough at enough
    omega
  intro state within left
  have failed : SameAt state (tooDeep limit : Parser α) (tooDeep limit) :=
    throw _ state within left
  cases levels with
  | zero =>
      have tooDeep := full rfl enough state within
      cases otherLevels with
      | zero => exact failed
      | succ otherLevel => exact ⟨(nested_of_le tooDeep _).symm, failed.leads⟩
  | succ level =>
      cases otherLevels with
      | zero =>
          have tooDeep := full rfl otherEnough state within
          refine ⟨nested_of_le tooDeep _, fun succeeds => ?_⟩
          rw [Parser.below, nested_of_le tooDeep] at succeeds
          cases succeeds
      | succ otherLevel => exact nested (same level otherLevel rfl rfl) state within left

/-- Routines that pass a token before they call themselves one level deeper never run out of levels
if they have enough of them. -/
theorem sameWithin_levels {routine other : Nat → Parser α}
    (step : ∀ {deeper fewer levels otherLevels : Nat}, depth ≤ deeper → fewer ≤ count →
      Enough limit deeper fewer levels → Enough limit deeper fewer otherLevels →
      (∀ level otherLevel, levels = level + 1 → otherLevels = otherLevel + 1 →
        SameBelow (deeper + 1) fewer (routine level) (other otherLevel)) →
      SameWithin deeper fewer (routine levels) (other otherLevels))
    (enough : Enough limit depth count levels)
    (otherEnough : Enough limit depth count otherLevels) :
    SameWithin depth count (routine levels) (other otherLevels) := by
  -- One call inside another is deeper and has fewer tokens left, so both have to be free.
  have deeper : ∀ deeper fewer otherLevels, depth ≤ deeper → fewer ≤ count →
      Enough limit deeper fewer levels → Enough limit deeper fewer otherLevels →
      SameWithin deeper fewer (routine levels) (other otherLevels) := by
    clear enough otherEnough
    induction levels with
    | zero =>
        intro deeper fewer otherLevels isDeeper isFewer enough otherEnough
        exact step isDeeper isFewer enough otherEnough fun level _ isSucc => by omega
    | succ levels induction =>
        intro deeper fewer otherLevels isDeeper isFewer enough otherEnough
        refine step isDeeper isFewer enough otherEnough ?_
        intro level otherLevel isSucc otherSucc fewest less
        obtain rfl : levels = level := by omega
        unfold Enough at enough otherEnough
        refine induction _ _ _ (by omega) (by omega) ?_ ?_
        · unfold Enough
          omega
        · unfold Enough
          omega
  exact deeper depth count otherLevels (Nat.le_refl _) (Nat.le_refl _) enough otherEnough

/-! Types. -/

theorem same_mappingOf {value other : Parser TypeName} (same : SameBelow depth count value other) :
    SameWithin depth count (mappingOf value) (mappingOf other) := by
  refine .bind (.refl .advance reads_advance) fun _ => ?_
  refine .consume_bind (by simp) fun _ fewer less => ?_
  refine (SameWithin.refl .ident reads_ident).bind fun _ => .consume_bind (by simp) fun _ => ?_
  refine ((same fewer less).bind fun _ => ?_).toBelow
  exact .consume_bind (by simp) fun _ => (SameWithin.pure _).toBelow

theorem reads_arrayType : Reads arrayType fun _ _ => True :=
  (@coupled_arrayType (.same 0)).forward.reads

theorem same_typeWithin (enough : Enough limit depth count levels)
    (otherEnough : Enough limit depth count otherLevels) :
    SameWithin depth count (typeWithin limit levels) (typeWithin limit otherLevels) := by
  refine sameWithin_levels (fun _ _ enough otherEnough same => ?_) enough otherEnough
  rw [typeWithin_eq, typeWithin_eq]
  have looks : Reads (isWord "mapping") fun _ _ => True :=
    .peek_bind fun _ => .of_reads (.pure trivial)
  refine (SameWithin.refl (.isWord _) looks).bind fun _ => .ite ?_ ?_
  · exact .nest enough otherEnough fun level otherLevel isSucc otherSucc =>
      same_mappingOf (same level otherLevel isSucc otherSucc)
  · exact .refl balanced_arrayType reads_arrayType

/-! Expressions. -/

section

variable {operand other : Parser Expr}

theorem same_binary (same : SameWithin depth count operand other) (levels : List BinaryOp.Level) :
    SameWithin depth count (binary limit operand levels) (binary limit other levels) := by
  induction levels with
  | nil => exact same
  | cons level levels tighter =>
      refine .levelled (tighter.bind fun first => .iterate (fun left => ?_) first)
      refine .peek_bind fun token => ?_
      cases found : binaryOp? level token.kind with
      | none => exact .of_same (.pure _)
      | some op =>
          have going : token.kind ≠ .eof := by simp [(binaryOp?_eq_some_iff.1 found).1]
          refine .descend_bind (.advance_bind going fun fewer less => ?_)
          exact (tighter.toBelow fewer less).bind fun _ => .pure _

theorem same_unaryOver {primary otherPrimary : Parser Expr}
    (same : SameWithin depth count primary otherPrimary)
    (sameOperand : SameBelow depth count operand other) :
    SameWithin depth count (unaryOver primary operand) (unaryOver otherPrimary other) := by
  refine .peek_bind fun token => ?_
  cases found : unaryOp? token.kind with
  | none => exact .of_same same
  | some op =>
      refine .advance_bind (by simp [unaryOp?_eq_some_iff.1 found]) fun fewer less => ?_
      exact (sameOperand fewer less).bind fun _ => .pure _

theorem same_unaryWithin {primary otherPrimary : Parser Expr}
    (same : SameWithin depth count primary otherPrimary) (enough : Enough limit depth count levels)
    (otherEnough : Enough limit depth count otherLevels) :
    SameWithin depth count (unaryWithin limit primary levels)
      (unaryWithin limit otherPrimary otherLevels) := by
  refine sameWithin_levels (fun isDeeper isFewer enough otherEnough inner => ?_) enough otherEnough
  rw [unaryWithin_eq, unaryWithin_eq]
  refine same_unaryOver (same.mono isDeeper isFewer) fun fewer less => ?_
  exact .nest (enough.mono less) (otherEnough.mono less) fun level otherLevel isSucc otherSucc =>
    inner level otherLevel isSucc otherSucc fewer less

end

section

variable {expr other : Parser Expr} (same : SameBelow depth count expr other)

include same

theorem same_property :
    SameWithin depth count (property expr) (property other) := by
  refine .bind (.refl .ident reads_ident) fun _ => .consume_bind (by simp) fun _ fewer less => ?_
  exact (same fewer less).bind fun _ => .pure _

theorem same_access? (object : Expr) :
    SameWithin depth count (access? expr object) (access? other object) := by
  refine .peek_bind fun token => ?_
  split
  · next isDot =>
      refine .advance_bind (by simp [isDot]) (SameWithin.toBelow ?_)
      exact .bind (.refl .ident reads_ident) fun _ => .pure _
  · next isBracket =>
      refine .advance_bind (by simp [isBracket]) fun fewer less => ?_
      refine (same fewer less).bind fun _ => .consume_bind (by simp) fun _ => ?_
      exact (SameWithin.pure _).toBelow
  · next isParen =>
      refine .advance_bind (by simp [isParen]) fun fewer less => ?_
      exact ((same fewer less).closedList _).bind fun _ => .pure _
  · exact .of_same (.pure _)

theorem same_accesses (root : Expr) :
    SameWithin depth count (accesses limit expr root) (accesses limit other root) := by
  refine .levelled (.iterate (fun object => (same_access? same object).bind fun result => ?_) root)
  cases result with
  | none => exact .pure _
  | some value => exact .descend_bind (.pure _)

theorem same_primary : SameWithin depth count (primary limit expr) (primary limit other) := by
  refine .advance_bind (fun token _ fewer less => ?_) fun token ended => ?_
  · have items := same fewer less
    split
    · exact .pure _
    · exact .pure _
    · exact .pure _
    · exact .pure _
    · exact (items.closedList _).bind fun _ => .pure _
    · exact ((same_property items.toBelow).closedList _).bind fun _ => .pure _
    · exact same_accesses items.toBelow _
    · refine (items.closedList _).bind fun list => ?_
      split <;> exact .pure _
    · exact .throw _
  · rw [ended]
    exact .throw _

theorem same_ternary : SameWithin depth count (ternary limit expr) (ternary limit other) := by
  have enough := enough_limit limit depth count
  refine (same_binary (same_unaryWithin (same_primary same) enough enough) _).bind fun _ => ?_
  refine .take_bind (by simp) (fun fewer less => ?_) (.pure _)
  refine (same fewer less).bind fun _ => .consume_bind (by simp) fun _ fewest least => ?_
  exact (same fewest (least.trans less)).bind fun _ => .pure _

end

theorem same_exprWithin (enough : Enough limit depth count levels)
    (otherEnough : Enough limit depth count otherLevels) :
    SameWithin depth count (exprWithin limit levels) (exprWithin limit otherLevels) := by
  refine sameWithin_levels (fun _ _ enough otherEnough same => ?_) enough otherEnough
  rw [exprWithin_eq, exprWithin_eq]
  exact .nest enough otherEnough fun level otherLevel isSucc otherSucc =>
    same_ternary (same level otherLevel isSucc otherSucc)

/-! Statements. -/

theorem same_blockOf {statements other : Parser (List Stmt)}
    (same : SameBelow depth count statements other) :
    SameWithin depth count (blockOf statements) (blockOf other) := by
  refine .consume_bind (by simp) fun _ fewer less => ?_
  refine (same fewer less).bind fun _ => .consume_bind (by simp) fun _ => ?_
  exact (SameWithin.pure _).toBelow

section

variable {expr : Parser Expr} {block other : Parser (List Stmt)}
  (sameExpr : ∀ count, SameWithin depth count expr expr) (same : SameBelow depth count block other)

include sameExpr same

theorem same_branchOver {branch otherBranch : Parser Stmt}
    (sameBranch : SameBelow depth count branch otherBranch) :
    SameWithin depth count (branchOver expr block branch) (branchOver expr other otherBranch) := by
  refine .consume_bind (by simp) fun _ fewer less => (sameExpr _).bind fun _ => ?_
  refine (same fewer less).bind fun _ => .take_bind (by simp) (fun fewest least => ?_) (.pure _)
  refine .peek_bind fun next => .of_same ?_
  split
  · exact (same _ (least.trans less)).bind fun _ => .pure _
  · exact (sameBranch _ (least.trans less)).bind fun _ => .pure _
  · exact .throw _

theorem same_countingLoop :
    SameWithin depth count (countingLoop expr block) (countingLoop expr other) := by
  have failFor {count : Nat} (part : ForPart) :
      SameWithin depth count (failFor part : Parser Stmt) (failFor part) :=
    .peek_bind fun _ => .of_same (.throw _)
  have takes (word : String) : Reads (takeWord word) fun _ _ => True := by
    rw [← bind_pure (takeWord word)]
    exact reads_takeWord_bind (fun _ _ _ => .pure trivial) (.pure trivial)
  refine .consume_bind (by simp) fun _ fewer less => .peek_bind fun name => .of_same ?_
  refine .ite (failFor _) (.bind (.refl .advance reads_advance) fun _ => ?_)
  refine .take_bind (by simp) (SameWithin.toBelow ?_) (failFor _)
  refine (sameExpr _).bind fun _ => (SameWithin.refl (.takeWord _) (takes _)).bind fun _ => ?_
  refine .ite (failFor _) ((sameExpr _).bind fun _ => ?_)
  refine (SameWithin.refl (.takeWord _) (takes _)).bind fun _ => .ite ?_ ?_
  · exact (sameExpr _).bind fun _ => (same fewer less).bind fun _ => .pure _
  · exact (SameWithin.pure _).bind fun _ => (same fewer less).bind fun _ => .pure _

theorem same_simpleStmt :
    SameWithin depth count (simpleStmt expr block) (simpleStmt expr other) := by
  refine .peek_bind fun token => ?_
  split
  · next isWhile =>
      refine .advance_bind (by simp [isWhile]) fun fewer less => (sameExpr _).bind fun _ => ?_
      exact (same fewer less).bind fun _ => .pure _
  · next isReturn =>
      refine .advance_bind (by simp [isReturn]) (SameWithin.toBelow ?_)
      refine .bind (.refl (Balanced.peek.bind fun _ => .pure _) reads_atStmtEnd) fun _ => ?_
      exact .ite (.pure _) ((sameExpr _).bind fun _ => .pure _)
  · next isBreak => exact .advance_bind (by simp [isBreak]) (SameWithin.pure _).toBelow
  · next isContinue => exact .advance_bind (by simp [isContinue]) (SameWithin.pure _).toBelow
  · refine .of_same ((sameExpr _).bind fun _ => .take_bind (by simp) ?_ (.pure _))
    exact SameWithin.toBelow ((sameExpr _).bind fun _ => .pure _)

theorem same_branchWithin (enough : Enough limit depth count levels)
    (otherEnough : Enough limit depth count otherLevels) :
    SameWithin depth count (branchWithin limit expr block levels)
      (branchWithin limit expr other otherLevels) := by
  refine sameWithin_levels (fun isDeeper isFewer enough otherEnough inner => ?_) enough otherEnough
  rw [branchWithin_eq, branchWithin_eq]
  have exprs (count : Nat) := (sameExpr count).mono isDeeper (Nat.le_refl _)
  refine same_branchOver exprs (same.mono isDeeper isFewer) fun fewer less => ?_
  exact .nest (enough.mono less) (otherEnough.mono less) fun level otherLevel isSucc otherSucc =>
    inner level otherLevel isSucc otherSucc fewer less

end

theorem same_stmt {block other : Parser (List Stmt)} (same : SameBelow depth count block other) :
    SameWithin depth count (stmt limit block) (stmt limit other) := by
  have exprs (count : Nat) : SameWithin depth count (expr limit) (expr limit) :=
    .refl (balanced_exprWithin limit limit) (reads_exprWithin limit limit)
  have enough := enough_limit limit depth count
  refine .peek_bind fun token => .of_same ?_
  split
  · exact same_branchWithin exprs same enough enough
  · exact same_countingLoop exprs same
  · refine (same_simpleStmt exprs same).bind fun _ => ?_
    exact .take_bind (by simp) (SameWithin.pure _).toBelow (.pure _)

theorem same_blockWithin (enough : Enough limit depth count levels)
    (otherEnough : Enough limit depth count otherLevels) :
    SameWithin depth count (blockWithin limit levels) (blockWithin limit otherLevels) := by
  refine sameWithin_levels (fun _ _ enough otherEnough same => ?_) enough otherEnough
  rw [blockWithin_eq, blockWithin_eq]
  refine same_blockOf fun fewer less => ?_
  refine .nest (enough.mono less) (otherEnough.mono less) ?_
  intro level otherLevel isSucc otherSucc
  have blocks := same level otherLevel isSucc otherSucc fewer less
  exact (same_stmt blocks.toBelow).many _

end

/-! Levels for the tokens left are enough. -/

section

variable {limit levels : Nat} {state : State} (enough : state.rest.length < levels)

theorem SameWithin.eq {routine other : Parser α}
    (same : SameWithin state.depth state.rest.length routine other) :
    routine state = other state :=
  (same state (Nat.le_refl _) (Nat.le_refl _)).eq

include enough

theorem typeWithin_eq_of_lt : typeWithin limit levels state = typeName limit state :=
  (same_typeWithin (.inr enough) (enough_limit _ _ _)).eq

theorem exprWithin_eq_of_lt : exprWithin limit levels state = expr limit state :=
  (same_exprWithin (.inr enough) (enough_limit _ _ _)).eq

theorem unaryWithin_eq_of_lt :
    unaryWithin limit (primary limit (expr limit)) levels state =
      unaryWithin limit (primary limit (expr limit)) limit state := by
  refine (same_unaryWithin ?_ (.inr enough) (enough_limit _ _ _)).eq
  exact .refl (balanced_primary (balanced_exprWithin limit limit) limit)
    (reads_primary (reads_exprWithin limit limit))

theorem blockWithin_eq_of_lt : blockWithin limit levels state = block limit state :=
  (same_blockWithin (.inr enough) (enough_limit _ _ _)).eq

theorem branchWithin_eq_of_lt :
    branchWithin limit (expr limit) (block limit) levels state =
      branchWithin limit (expr limit) (block limit) limit state := by
  refine (same_branchWithin (fun _ => ?_) (SameWithin.toBelow ?_) (.inr enough)
    (enough_limit _ _ _)).eq
  · exact .refl (balanced_exprWithin limit limit) (reads_exprWithin limit limit)
  · exact .refl (balanced_blockWithin limit limit) (reads_blockWithin limit limit)

end

end Covenant.Parser
