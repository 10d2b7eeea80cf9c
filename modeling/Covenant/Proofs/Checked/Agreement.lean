import Covenant.Proofs.Checked.Lexing
import Covenant.Proofs.Checked.Parser
import Covenant.Proofs.Parser.Lockstep

/-! The checked routines agree with the plain ones on tokens whose texts can be taken from the
source. No routine closes a level that was open before it started, so the levels never run out. -/

namespace Covenant

namespace Parser

variable {α β : Type}

/-- A later state, in which no level has been closed that was open before. -/
structure State.Leads (state after : State) : Prop where
  precedes : state.Precedes after
  depth : state.depth ≤ after.depth

theorem State.Leads.refl (state : State) : state.Leads state :=
  ⟨.refl state, Nat.le_refl _⟩

theorem State.Leads.trans {first second third : State} (earlier : first.Leads second)
    (later : second.Leads third) : first.Leads third :=
  ⟨earlier.precedes.trans later.precedes, earlier.depth.trans later.depth⟩

def Steady (routine : Parser α) : Prop :=
  ∀ state : State, state.Leads (finalState (routine state))

namespace Steady

theorem pure (value : α) : Steady (pure value) := State.Leads.refl

theorem throw (error : CompileError) : Steady (throw error : Parser α) := State.Leads.refl

theorem bind {first : Parser α} {next : α → Parser β} (steady : Steady first)
    (continues : ∀ value, Steady (next value)) : Steady (first >>= next) := by
  intro state
  have leads := steady state
  change state.Leads (finalState (EStateM.bind first next state))
  rw [EStateM.bind]
  cases ran : first state with
  | error error after =>
      rw [ran] at leads
      exact leads
  | ok value after =>
      rw [ran] at leads
      exact leads.trans (continues value after)

theorem ite {condition : Prop} [Decidable condition] {yes no : Parser α} (steadyYes : Steady yes)
    (steadyNo : Steady no) : Steady (if condition then yes else no) := by
  split
  · exact steadyYes
  · exact steadyNo

theorem peek : Steady peek := State.Leads.refl

theorem advance : Steady advance := by
  intro state
  refine ⟨Forward.advance state, ?_⟩
  rw [Parser.advance]
  split <;> exact Nat.le_refl _

theorem descend (limit : Nat) : Steady (descend limit) := by
  intro state
  refine ⟨Forward.descend limit state, ?_⟩
  rw [Parser.descend]
  split
  · exact Nat.le_refl _
  · exact Nat.le_succ _

theorem take (kind : Token.Kind) : Steady (take kind) :=
  peek.bind fun _ => .ite (advance.bind fun _ => .pure _) (.pure _)

theorem consume (kind : Token.Kind) : Steady (consume kind) :=
  peek.bind fun _ => .ite advance (.throw _)

theorem atEnd (closing : Token.Kind) : Steady (atEnd closing) :=
  peek.bind fun _ => .pure _

theorem iterate {step : α → Parser (ForInStep α)} (steady : ∀ value, Steady (step value))
    (value : α) : Steady (iterate step value) := by
  intro state
  exact repeatWithin_of_bind (motive := Steady) .pure (.throw _)
    (fun value _ => (steady value).bind) state.rest value state

end Steady

end Parser

namespace Checked

variable {α β : Type} {source : String}

/-- On tokens of the source, the checked routine never panics and does what the plain one does. -/
def Agrees (source : String) (checked : Routine α) (plain : Parser α) : Prop :=
  ∀ state : Parser.State, (∀ token ∈ state.rest, Faithful source token) →
    checked state = .ok (plain state) ∧ state.Leads (Parser.finalState (plain state))

namespace Agrees

theorem lift {plain : Parser α} (steady : plain.Steady) : Agrees source (liftM plain) plain :=
  fun state _ => ⟨rfl, steady state⟩

theorem pure (value : α) : Agrees source (pure value) (pure value) :=
  fun state _ => ⟨rfl, .refl state⟩

theorem throw (error : CompileError) :
    Agrees source (liftM (throw error : Parser α)) (throw error) :=
  .lift (.throw error)

/-- What a routine can end with is known where the next one starts. -/
theorem bind_of {checked : Routine α} {plain : Parser α} {checkedNext : α → Routine β}
    {plainNext : α → Parser β} (agrees : Agrees source checked plain)
    (continues : ∀ ⦃state value after⦄, (∀ token ∈ state.rest, Faithful source token) →
      plain state = .ok value after → Agrees source (checkedNext value) (plainNext value)) :
    Agrees source (checked >>= checkedNext) (plain >>= plainNext) := by
  intro state faithful
  obtain ⟨same, leads⟩ := agrees state faithful
  change (checked state >>= _) = Except.ok (EStateM.bind plain plainNext state) ∧
    state.Leads (Parser.finalState (EStateM.bind plain plainNext state))
  rw [EStateM.bind, same]
  cases ran : plain state with
  | error error after =>
      rw [ran] at leads
      exact ⟨rfl, leads⟩
  | ok value after =>
      rw [ran] at leads
      obtain ⟨passed, split, -⟩ := leads.precedes
      have rest : ∀ token ∈ after.rest, Faithful source token := fun token member =>
        faithful token (by rw [split]; exact List.mem_append_right _ member)
      obtain ⟨sameNext, leadsNext⟩ := continues faithful ran after rest
      exact ⟨sameNext, leads.trans leadsNext⟩

theorem bind {checked : Routine α} {plain : Parser α} {checkedNext : α → Routine β}
    {plainNext : α → Parser β} (agrees : Agrees source checked plain)
    (continues : ∀ value, Agrees source (checkedNext value) (plainNext value)) :
    Agrees source (checked >>= checkedNext) (plain >>= plainNext) :=
  agrees.bind_of fun _ value _ _ _ => continues value

/-- A checked step that succeeds does not show. -/
theorem step_bind {step : Checked α} {value : α} {next : α → Routine β} {plain : Parser β}
    (succeeds : step = .ok value) (agrees : Agrees source (next value) plain) :
    Agrees source (liftM step >>= next) plain := by
  rw [succeeds]
  exact agrees

theorem ite {condition : Prop} [Decidable condition] {yes no : Routine α}
    {plainYes plainNo : Parser α} (agreesYes : Agrees source yes plainYes)
    (agreesNo : Agrees source no plainNo) :
    Agrees source (if condition then yes else no) (if condition then plainYes else plainNo) := by
  split
  · exact agreesYes
  · exact agreesNo

/-! Reading tokens. -/

theorem faithful_next {state : Parser.State}
    (faithful : ∀ token ∈ state.rest, Faithful source token) : Faithful source state.next := by
  rw [Parser.State.next]
  cases rest : state.rest with
  | nil =>
      have sliced : Span.slice? ⟨0, 0⟩ source = some "" := by
        simp [Span.slice?, splitBytes?, splitBytes?.go]
      have empty : cut source ⟨0, 0⟩ = .ok "" := by
        rw [cut, upperEnd_of_le (Nat.zero_le _), ok_bind, sliced]
        rfl
      exact ⟨empty, fun escaped isString => by cases isString⟩
  | cons token tokens => exact faithful token (by simp [rest])

section

variable {next : Token → Routine β} {plainNext : Token → Parser β}

theorem peek_bind
    (continues : ∀ token, Faithful source token → Agrees source (next token) (plainNext token)) :
    Agrees source (liftM Parser.peek >>= next) (Parser.peek >>= plainNext) := by
  refine (lift .peek).bind_of fun state token after faithful ran => ?_
  cases ran
  exact continues _ (faithful_next faithful)

theorem advance_bind
    (continues : ∀ token, Faithful source token → Agrees source (next token) (plainNext token)) :
    Agrees source (liftM Parser.advance >>= next) (Parser.advance >>= plainNext) := by
  refine (lift .advance).bind_of fun state token after faithful ran => ?_
  rw [Parser.advance] at ran
  split at ran <;> cases ran <;> exact continues _ (faithful_next faithful)

theorem consume_bind {kind : Token.Kind} (continues : ∀ token, token.kind = kind →
      Faithful source token → Agrees source (next token) (plainNext token)) :
    Agrees source (liftM (Parser.consume kind) >>= next) (Parser.consume kind >>= plainNext) := by
  refine (lift (.consume kind)).bind_of fun state token after faithful ran => ?_
  rw [Parser.consume, Parser.bind_of_ok (show Parser.peek state = .ok state.next state from rfl)]
    at ran
  split at ran
  · next same =>
      rw [Parser.advance] at ran
      split at ran <;> cases ran <;> exact continues _ same (faithful_next faithful)
  · cases ran

end

theorem take (kind : Token.Kind) : Agrees source (liftM (Parser.take kind)) (Parser.take kind) :=
  .lift (.take kind)

theorem consume (kind : Token.Kind) :
    Agrees source (liftM (Parser.consume kind)) (Parser.consume kind) :=
  .lift (.consume kind)

theorem ident : Agrees source (Routine.ident source) Parser.ident := by
  refine consume_bind fun token isName faithful => ?_
  exact step_bind (faithful.textOf isName) (.pure _)

theorem isWord (word : String) : Agrees source (Routine.isWord source word) (Parser.isWord word) := by
  refine peek_bind fun token faithful => ?_
  by_cases isName : token.kind = .identifier
  · simp only [isName, if_true, decide_true, Bool.true_and]
    exact step_bind faithful.text (.pure _)
  · simp only [isName, if_false, decide_false, Bool.false_and]
    exact .pure _

theorem takeWord (word : String) :
    Agrees source (Routine.takeWord source word) (Parser.takeWord word) :=
  (isWord word).bind fun _ => .ite ((lift .advance).bind fun _ => .pure _) (.pure _)

/-! Nesting and repetition. -/

theorem ascend_of_lt {state : Parser.State} (opened : 0 < state.depth) :
    Routine.ascend state = .ok state.ascend := by
  rw [Routine.ascend, sub_of_le opened]
  rfl

/-- The level that was opened is still open when the routine ends, whichever way it ends. -/
theorem nested {checked : Routine α} {plain : Parser α} (agrees : Agrees source checked plain)
    (limit : Nat) :
    Agrees source (Routine.nested limit checked) (Parser.nested limit plain) := by
  rintro ⟨rest, depth⟩ faithful
  rw [Routine.nested]
  rcases Nat.lt_or_ge depth limit with room | full
  · obtain ⟨same, leads⟩ := agrees ⟨rest, depth + 1⟩ faithful
    rw [Parser.nested_of_lt room, Parser.descend_of_lt room]
    dsimp only
    rw [same, ok_bind]
    have closes : ∀ after, (⟨rest, depth + 1⟩ : Parser.State).Leads after →
        Routine.ascend after = .ok after.ascend ∧
          (⟨rest, depth⟩ : Parser.State).Leads after.ascend := by
      intro after leads
      have deeper : depth + 1 ≤ after.depth := leads.depth
      exact ⟨ascend_of_lt (Nat.zero_lt_of_lt deeper), leads.precedes, Nat.le_sub_one_of_lt deeper⟩
    cases ran : plain ⟨rest, depth + 1⟩ with
    | ok value after =>
        rw [ran] at leads
        obtain ⟨closed, leadsOut⟩ := closes after leads
        dsimp only
        rw [closed]
        exact ⟨rfl, leadsOut⟩
    | error error after =>
        rw [ran] at leads
        obtain ⟨closed, leadsOut⟩ := closes after leads
        dsimp only
        rw [closed]
        exact ⟨rfl, leadsOut⟩
  · rw [Parser.nested_of_le full, Parser.descend_of_le full]
    exact ⟨rfl, .refl _⟩

theorem levelled {checked : Routine α} {plain : Parser α} (agrees : Agrees source checked plain) :
    Agrees source (Routine.levelled checked) (Parser.levelled plain) := by
  intro state faithful
  obtain ⟨same, leads⟩ := agrees state faithful
  rw [Routine.levelled, Parser.levelled, same]
  cases ran : plain state with
  | ok value after =>
      rw [ran] at leads
      exact ⟨rfl, leads.precedes, Nat.le_refl _⟩
  | error error after =>
      rw [ran] at leads
      exact ⟨rfl, leads⟩

theorem iterate {checked : α → Routine (ForInStep α)} {plain : α → Parser (ForInStep α)}
    (agrees : ∀ value, Agrees source (checked value) (plain value)) (value : α) :
    Agrees source (Routine.iterate checked value) (Parser.iterate plain value) := by
  have round {rounds : α → Routine α} {plainRounds : α → Parser α}
      (agreesOn : ∀ value, Agrees source (rounds value) (plainRounds value)) (value : α) :
      Agrees source (Routine.unrolled checked rounds value)
        (Parser.unrolled plain plainRounds value) := by
    refine (agrees value).bind fun result => ?_
    cases result with
    | done result => exact .pure result
    | yield next => exact agreesOn next
  have rounds : ∀ bound value, Agrees source (Routine.repeatWithin checked bound value)
      (Parser.repeatWithin plain bound value) := by
    intro bound
    induction bound with
    | nil => exact round fun _ => lift (.throw _)
    | cons token bound induction => exact round induction
  exact fun state faithful => rounds state.rest value state faithful

section

variable {item : Routine α} {plainItem : Parser α} (agrees : Agrees source item plainItem)

include agrees

theorem many (closing : Token.Kind) :
    Agrees source (Routine.many closing item) (Parser.many closing plainItem) := by
  refine (iterate (fun items => ?_) []).bind fun _ => .pure _
  exact (lift (.atEnd closing)).bind fun _ => .ite (.pure _) (agrees.bind fun _ => .pure _)

theorem closedList (closing : Symbol) :
    Agrees source (Routine.closedList closing item) (Parser.closedList closing plainItem) := by
  refine Agrees.bind ((iterate (fun list => ?_) _).bind fun _ => .pure _) fun _ =>
    (consume _).bind fun _ => .pure _
  refine (lift (.atEnd _)).bind fun _ => .ite (.pure _) (agrees.bind fun _ => ?_)
  exact (take _).bind fun _ => .ite (.pure _) (.pure _)

end

end Agrees

end Checked

end Covenant
