import Covenant.Proofs.Parser.CommaList
import Covenant.Proofs.Parser.Lockstep
import Mathlib

/-! Runs of the parser, moment by moment. A run lists the states that a routine goes through.
However a routine ends, no more levels than the limit allows have been open, and a level that is
closed was open. That loops come to their own ends is not said of a run but of its result. -/

namespace Covenant.Parser

variable {α β : Type}

inductive Moment where
  /-- A step has been made. -/
  | step (state : State)
  /-- A nested routine has ended, and its level is about to be closed. -/
  | closing (state : State)

def Moment.state : Moment → State
  | step state | closing state => state

def State.deeper (state : State) : State :=
  { state with depth := state.depth + 1 }

/-- `Runs limit routine state moments result` says that the routine, started in a state, goes
through these moments and ends with this result. A run is that of a function on states: a loop that
gives up, which is the same function as one that throws at once, has a run too. -/
inductive Runs (limit : Nat) : {α : Type} → Parser α → State → List Moment →
    EStateM.Result CompileError State α → Prop where
  | pure {α : Type} (value : α) (state : State) : Runs limit (pure value) state [] (.ok value state)
  | throw {α : Type} (error : CompileError) (state : State) :
      Runs limit (throw error : Parser α) state [] (.error error state)
  | peek (state : State) : Runs limit peek state [.step state] (.ok state.next state)
  | advance_end {state : State} :
      state.next.kind = .eof → Runs limit advance state [.step state] (.ok state.next state)
  | advance {state : State} :
      state.next.kind ≠ .eof →
        Runs limit advance state [.step { state with rest := state.rest.tail }]
          (.ok state.next { state with rest := state.rest.tail })
  | descend {state : State} :
      state.depth < limit →
        Runs limit (descend limit) state [.step state.deeper] (.ok () state.deeper)
  | descend_full {state : State} :
      limit ≤ state.depth →
        Runs limit (descend limit) state [.step state]
          (.error (.resource (.nestingTooDeep limit)) state)
  | bind {α β : Type} {first : Parser α} {next : α → Parser β} {state between : State} {middle : α}
      {front back : List Moment} {result : EStateM.Result CompileError State β} :
      Runs limit first state front (.ok middle between) →
      Runs limit (next middle) between back result →
        Runs limit (first >>= next) state (front ++ back) result
  | bind_error {α β : Type} {first : Parser α} {next : α → Parser β} {state after : State}
      {error : CompileError} {moments : List Moment} :
      Runs limit first state moments (.error error after) →
        Runs limit (first >>= next) state moments (.error error after)
  | nested {α : Type} {routine : Parser α} {state after : State} {value : α}
      {moments : List Moment} :
      state.depth < limit → Runs limit routine state.deeper moments (.ok value after) →
        Runs limit (nested limit routine) state
          (.step state.deeper :: (moments ++ [.closing after, .step after.ascend]))
          (.ok value after.ascend)
  | nested_error {α : Type} {routine : Parser α} {state after : State} {error : CompileError}
      {moments : List Moment} :
      state.depth < limit → Runs limit routine state.deeper moments (.error error after) →
        Runs limit (nested limit routine) state
          (.step state.deeper :: (moments ++ [.closing after, .step after.ascend]))
          (.error error after.ascend)
  | nested_full {α : Type} {routine : Parser α} {state : State} :
      limit ≤ state.depth →
        Runs limit (nested limit routine) state [.step state]
          (.error (.resource (.nestingTooDeep limit)) state)
  | levelled {α : Type} {routine : Parser α} {state after : State} {value : α}
      {moments : List Moment} :
      Runs limit routine state moments (.ok value after) →
        Runs limit (levelled routine) state
          (moments ++ [.step { after with depth := state.depth }])
          (.ok value { after with depth := state.depth })
  | levelled_error {α : Type} {routine : Parser α} {state after : State} {error : CompileError}
      {moments : List Moment} :
      Runs limit routine state moments (.error error after) →
        Runs limit (levelled routine) state moments (.error error after)
  | done {α : Type} {step : α → Parser (ForInStep α)} {value result : α} {state after : State}
      {moments : List Moment} :
      Runs limit (step value) state moments (.ok (.done result) after) →
        Runs limit (iterate step value) state moments (.ok result after)
  | yield {α : Type} {step : α → Parser (ForInStep α)} {value next : α} {state between : State}
      {front back : List Moment} {result : EStateM.Result CompileError State α} :
      Runs limit (step value) state front (.ok (.yield next) between) →
      Runs limit (iterate step next) between back result →
        Runs limit (iterate step value) state (front ++ back) result
  | iterate_error {α : Type} {step : α → Parser (ForInStep α)} {value : α} {state after : State}
      {error : CompileError} {moments : List Moment} :
      Runs limit (step value) state moments (.error error after) →
        Runs limit (iterate step value) state moments (.error error after)

namespace Runs

variable {limit : Nat} {routine : Parser α} {state : State} {moments : List Moment}
  {result : EStateM.Result CompileError State α}

/-- No level that was open before the run is closed, and every level that is closed was opened in
the run. -/
theorem le_depth (run : Runs limit routine state moments result) :
    state.depth ≤ (finalState result).depth ∧
      ∀ inner, .closing inner ∈ moments → state.depth < inner.depth := by
  induction run with
  | pure | throw | peek | advance_end | advance | descend_full | nested_full =>
      exact ⟨Nat.le_refl _, by simp⟩
  | descend => exact ⟨Nat.le_succ _, by simp⟩
  | bind _ _ first second | yield _ _ first second =>
      obtain ⟨rises, closes⟩ := first
      obtain ⟨risesAgain, closesAgain⟩ := second
      refine ⟨Nat.le_trans rises risesAgain, fun inner member => ?_⟩
      rcases List.mem_append.1 member with inFront | inBack
      · exact closes inner inFront
      · exact Nat.lt_of_le_of_lt rises (closesAgain inner inBack)
  | bind_error _ inside | levelled_error _ inside | done _ inside | iterate_error _ inside =>
      exact inside
  | nested _ _ inside | nested_error _ _ inside =>
      -- The level that is closed last is the one that was opened first.
      obtain ⟨rises, closes⟩ := inside
      refine ⟨Nat.le_sub_of_add_le rises, fun inner member => ?_⟩
      simp only [List.mem_cons, List.mem_append, reduceCtorEq, false_or, List.not_mem_nil,
        or_false] at member
      rcases member with inMoments | ended
      · exact Nat.lt_of_succ_lt (closes inner inMoments)
      · cases ended
        exact rises
  | levelled _ inside =>
      refine ⟨Nat.le_refl _, fun inner member => inside.2 inner ?_⟩
      simpa using member

theorem depth_le (run : Runs limit routine state moments result) (within : state.depth ≤ limit) :
    (finalState result).depth ≤ limit ∧ ∀ moment ∈ moments, moment.state.depth ≤ limit := by
  induction run with
  | pure | throw => exact ⟨within, by simp⟩
  | peek | advance_end | advance | descend_full | nested_full =>
      exact ⟨within, by simpa [Moment.state] using within⟩
  | descend room =>
      refine ⟨room, fun moment member => ?_⟩
      rw [List.mem_singleton.1 member]
      exact room
  | bind _ _ first second | yield _ _ first second =>
      obtain ⟨between, front⟩ := first within
      obtain ⟨after, back⟩ := second between
      exact ⟨after, List.forall_mem_append.2 ⟨front, back⟩⟩
  | bind_error _ inside | levelled_error _ inside | done _ inside | iterate_error _ inside =>
      exact inside within
  | nested room _ inside | nested_error room _ inside =>
      obtain ⟨ended, inner⟩ := inside room
      have closed := Nat.le_trans (Nat.sub_le _ 1) ended
      refine ⟨closed, List.forall_mem_cons.2 ⟨room, List.forall_mem_append.2 ⟨inner, ?_⟩⟩⟩
      simpa [Moment.state] using ⟨ended, closed⟩
  | levelled _ inside =>
      obtain ⟨_, inner⟩ := inside within
      exact ⟨within, List.forall_mem_append.2 ⟨inner, by simpa [Moment.state] using within⟩⟩

end Runs

/-! The moments of a run are counted against the tokens that it passes: each token pays for
twenty-four of them. A routine has a price, what its moments may take beyond that; it is negative
for routines that always pass tokens. -/

/-- The result of a routine whose loops, and those of the routines that it calls, have all come to
their own ends. -/
def LoopsEnd : EStateM.Result CompileError State α → Prop
  | .ok _ _ => True
  | .error error _ => error ≠ .resource .endless

def charge (price : α → Int) (failing : Int) : EStateM.Result CompileError State α → Int
  | .ok value _ => price value
  | .error _ _ => failing

/-- The moments are paid for by the tokens passed and by the price of the result. -/
def Covered (price : α → Int) (failing : Int) (state : State) (moments : List Moment)
    (result : EStateM.Result CompileError State α) : Prop :=
  (moments.length : Int) + 24 * (finalState result).rest.length ≤
    24 * state.rest.length + charge price failing result

/-- The routine has a run with its result, at this price, and no loop gives up in it. -/
def Pays (limit : Nat) (price : α → Int) (failing : Int) (routine : Parser α) (state : State) :
    Prop :=
  LoopsEnd (routine state) ∧ ∃ moments, Runs limit routine state moments (routine state) ∧
    Covered price failing state moments (routine state)

def Costs (limit : Nat) (price : α → Int) (failing : Int) (routine : Parser α) : Prop :=
  ∀ state, Pays limit price failing routine state

/-- What a round may take: a round that is not the last has to pay for itself. -/
def roundPrice (price : α → Int) : ForInStep α → Int
  | .done value => price value
  | .yield _ => 0

/-- The price where `next` comes first. -/
def CostsAt (next : Token) (limit : Nat) (price : α → Int) (failing : Int) (routine : Parser α) :
    Prop :=
  ∀ state : State, state.next = next → Pays limit price failing routine state

section

variable {limit : Nat} {price : α → Int} {total : β → Int} {failing fails : Int} {token : Token}

theorem Covered.append {front back : List Moment} {state between : State} {cost : Int}
    {result : EStateM.Result CompileError State β}
    (paid : (front.length : Int) + 24 * between.rest.length ≤ 24 * state.rest.length + cost)
    (covered : Covered (fun value => total value - cost) (fails - cost) between back result) :
    Covered total fails state (front ++ back) result := by
  rw [Covered, List.length_append]
  rw [Covered] at covered
  cases result <;> simp only [charge, finalState] at covered ⊢ <;> omega

theorem paid_one (moment : Moment) (state : State) :
    ([moment].length : Int) + 24 * state.rest.length ≤ 24 * state.rest.length + 1 := by
  rw [List.length_singleton]
  omega

theorem Pays.bind {first : Parser α} {next : α → Parser β} {state between : State} {middle : α}
    {front : List Moment} {cost : Int} (succeeds : first state = .ok middle between)
    (run : Runs limit first state front (.ok middle between))
    (paid : (front.length : Int) + 24 * between.rest.length ≤ 24 * state.rest.length + cost)
    (continues :
      Pays limit (fun value => total value - cost) (fails - cost) (next middle) between) :
    Pays limit total fails (first >>= next) state := by
  obtain ⟨ended, back, runOn, covered⟩ := continues
  rw [Pays, bind_of_ok succeeds]
  exact ⟨ended, front ++ back, .bind run runOn, covered.append paid⟩

theorem Pays.bind_error {first : Parser α} {next : α → Parser β} {state after : State}
    {error : CompileError} {moments : List Moment} (stops : first state = .error error after)
    (ended : error ≠ .resource .endless) (run : Runs limit first state moments (.error error after))
    (paid : (moments.length : Int) + 24 * after.rest.length ≤ 24 * state.rest.length + fails) :
    Pays limit total fails (first >>= next) state := by
  rw [Pays, bind_of_error stops]
  exact ⟨ended, moments, .bind_error run, paid⟩

theorem Pays.mono {routine : Parser α} {state : State} {dearer : α → Int}
    (pays : Pays limit price failing routine state) (less : ∀ value, price value ≤ dearer value)
    (enough : failing ≤ fails) : Pays limit dearer fails routine state := by
  obtain ⟨ended, moments, run, covered⟩ := pays
  refine ⟨ended, moments, run, Int.le_trans covered (Int.add_le_add_left ?_ _)⟩
  cases routine state with
  | ok value after => exact less value
  | error error after => exact enough

namespace CostsAt

theorem of_costs {routine : Parser α} (costs : Costs limit price failing routine) :
    CostsAt token limit price failing routine :=
  fun state _ => costs state

theorem bind {first : Parser α} {next : α → Parser β}
    (costs : CostsAt token limit price failing first)
    (continues : ∀ value,
      Costs limit (fun result => total result - price value) (fails - price value) (next value))
    (enough : failing ≤ fails) : CostsAt token limit total fails (first >>= next) := by
  intro state isNext
  obtain ⟨ended, moments, run, covered⟩ := costs state isNext
  cases outcome : first state with
  | ok value between =>
      rw [outcome] at run covered
      exact .bind outcome run covered (continues value between)
  | error error after =>
      rw [outcome] at ended run covered
      exact .bind_error outcome ended run (Int.le_trans covered (Int.add_le_add_left enough _))

theorem advance_bind {next : Token → Parser β} (going : token.kind ≠ .eof)
    (continues : Costs limit (fun result => total result - -23) (fails - -23) (next token)) :
    CostsAt token limit total fails (advance >>= next) := by
  rintro state rfl
  have length := congrArg List.length (State.rest_of_next going)
  refine .bind (if_neg going) (.advance going) ?_ (continues { state with rest := state.rest.tail })
  simp only [List.length_cons, List.length_nil] at length ⊢
  omega

/-- Looking for a level is paid for whether or not there is one. -/
theorem descend_bind {next : Unit → Parser β}
    (continues : CostsAt token limit (fun result => total result - 1) (fails - 1) (next ()))
    (enough : 1 ≤ fails) : CostsAt token limit total fails (descend limit >>= next) := by
  intro state isNext
  rcases Nat.lt_or_ge state.depth limit with room | full
  · exact .bind (descend_of_lt room) (.descend room) (paid_one _ _) (continues state.deeper isNext)
  · have paid := Int.le_trans (paid_one (.step state) state) (Int.add_le_add_left enough _)
    exact .bind_error (descend_of_le full) (by simp) (.descend_full full) paid

end CostsAt

namespace Costs

theorem mono {routine : Parser α} {dearer : α → Int} (costs : Costs limit price failing routine)
    (less : ∀ value, price value ≤ dearer value) (enough : failing ≤ fails) :
    Costs limit dearer fails routine :=
  fun state => (costs state).mono less enough

theorem pure {value : α} (paid : 0 ≤ price value) : Costs limit price failing (pure value) := by
  refine fun state => ⟨trivial, [], .pure value state, ?_⟩
  change (0 : Int) + 24 * (state.rest.length : Int) ≤ 24 * state.rest.length + price value
  omega

theorem throw {error : CompileError} (other : error ≠ .resource .endless) (paid : 0 ≤ failing) :
    Costs limit price failing (throw error) := by
  refine fun state => ⟨other, [], .throw error state, ?_⟩
  change (0 : Int) + 24 * (state.rest.length : Int) ≤ 24 * state.rest.length + failing
  omega

theorem fail {pos : Position} {error : ParseError} (paid : 0 ≤ failing) :
    Costs limit price failing (fail pos error) :=
  throw (by simp) paid

theorem tooDeep (paid : 0 ≤ failing) : Costs limit price failing (tooDeep limit) :=
  throw (by simp) paid

theorem fail_bind {pos : Position} {error : ParseError} {next : α → Parser β} (paid : 0 ≤ fails) :
    Costs limit total fails (Parser.fail pos error >>= next) := by
  refine fun state => .bind_error rfl (by simp) (.throw _ state) ?_
  rw [List.length_nil]
  omega

theorem ite {condition : Prop} [Decidable condition] {yes no : Parser α}
    (costsYes : condition → Costs limit price failing yes)
    (costsNo : ¬condition → Costs limit price failing no) :
    Costs limit price failing (if condition then yes else no) := by
  split
  · next holds => exact costsYes holds
  · next fails => exact costsNo fails

theorem bind {first : Parser α} {next : α → Parser β} (costs : Costs limit price failing first)
    (continues : ∀ value,
      Costs limit (fun result => total result - price value) (fails - price value) (next value))
    (enough : failing ≤ fails) : Costs limit total fails (first >>= next) :=
  fun state => CostsAt.bind (.of_costs costs) continues enough state rfl

theorem peek_bind {next : Token → Parser β}
    (continues : ∀ token,
      CostsAt token limit (fun result => total result - 1) (fails - 1) (next token)) :
    Costs limit total fails (peek >>= next) :=
  fun state => .bind rfl (.peek state) (paid_one _ _) (continues state.next state rfl)

theorem descend_bind {next : Unit → Parser β}
    (continues : Costs limit (fun result => total result - 1) (fails - 1) (next ()))
    (enough : 1 ≤ fails) : Costs limit total fails (descend limit >>= next) :=
  fun state => CostsAt.descend_bind (.of_costs continues) enough state rfl

/-- A token that is passed without a look at it may be the last one. -/
theorem advance_bind {next : Token → Parser β}
    (continues : ∀ token, token.kind ≠ .eof →
      Costs limit (fun result => total result - -23) (fails - -23) (next token))
    (ends : ∀ token, token.kind = .eof →
      Costs limit (fun result => total result - 1) (fails - 1) (next token)) :
    Costs limit total fails (advance >>= next) := by
  intro state
  by_cases ended : state.next.kind = .eof
  · exact .bind (if_pos ended) (.advance_end ended) (paid_one _ _) (ends state.next ended state)
  · exact CostsAt.advance_bind ended (continues state.next ended) state rfl

theorem take_bind {kind : Token.Kind} {next : Bool → Parser β} (going : kind ≠ .eof)
    (taken : Costs limit (fun result => total result - -22) (fails - -22) (next true))
    (left : Costs limit (fun result => total result - 1) (fails - 1) (next false)) :
    Costs limit total fails (take kind >>= next) := by
  rw [take, bind_assoc]
  refine .peek_bind fun token => ?_
  by_cases same : token.kind = kind
  · simp only [if_pos same, bind_assoc, pure_bind]
    exact .advance_bind (same ▸ going) (taken.mono (fun _ => by omega) (by omega))
  · simp only [if_neg same, pure_bind]
    exact .of_costs left

theorem consume_bind {kind : Token.Kind} {next : Token → Parser β} (going : kind ≠ .eof)
    (continues : ∀ token,
      Costs limit (fun result => total result - -22) (fails - -22) (next token))
    (enough : 1 ≤ fails) : Costs limit total fails (consume kind >>= next) := by
  rw [consume, bind_assoc]
  refine .peek_bind fun token => ?_
  by_cases same : token.kind = kind
  · rw [if_pos same]
    exact .advance_bind (same ▸ going) ((continues token).mono (fun _ => by omega) (by omega))
  · rw [if_neg same]
    exact .of_costs (.fail_bind (by omega))

/-- The last token is looked at twice, but not passed. -/
theorem consume_eof_bind {next : Token → Parser β}
    (continues : ∀ token, Costs limit (fun result => total result - 2) (fails - 2) (next token))
    (enough : 1 ≤ fails) : Costs limit total fails (consume .eof >>= next) := by
  rw [consume, bind_assoc]
  refine .peek_bind fun token => .of_costs ?_
  by_cases same : token.kind = .eof
  · rw [if_pos same]
    refine .advance_bind (fun token _ => ?_) fun token _ => ?_
    all_goals exact (continues token).mono (fun _ => by omega) (by omega)
  · rw [if_neg same]
    exact .fail_bind (by omega)

theorem ident_bind {next : Ident → Parser β}
    (continues : ∀ name, Costs limit (fun result => total result - -22) (fails - -22) (next name))
    (enough : 1 ≤ fails) : Costs limit total fails (ident >>= next) := by
  rw [ident, bind_assoc]
  refine .consume_bind (by simp) (fun token => ?_) enough
  rw [pure_bind]
  exact continues _

theorem isWord_bind {word : String} {next : Bool → Parser β}
    (continues : ∀ found, Costs limit (fun result => total result - 1) (fails - 1) (next found)) :
    Costs limit total fails (isWord word >>= next) := by
  rw [isWord, bind_assoc]
  refine .peek_bind fun token => .of_costs ?_
  rw [pure_bind]
  exact continues _

theorem takeWord_bind {word : String} {next : Bool → Parser β}
    (taken : Costs limit (fun result => total result - -22) (fails - -22) (next true))
    (left : Costs limit (fun result => total result - 1) (fails - 1) (next false)) :
    Costs limit total fails (takeWord word >>= next) := by
  rw [takeWord, isWord, bind_assoc, bind_assoc]
  refine .peek_bind fun token => ?_
  rw [pure_bind]
  by_cases found : token.kind = .identifier ∧ token.text = word
  · rw [if_pos (by simpa using found), bind_assoc]
    refine .advance_bind (by simp [found.1]) ?_
    rw [pure_bind]
    exact taken.mono (fun _ => by omega) (by omega)
  · rw [if_neg (by simpa using found), pure_bind]
    exact .of_costs left

theorem atEnd_bind {closing : Token.Kind} {next : Bool → Parser β}
    (continues : ∀ ended, Costs limit (fun result => total result - 1) (fails - 1) (next ended)) :
    Costs limit total fails (atEnd closing >>= next) := by
  rw [atEnd, bind_assoc]
  refine .peek_bind fun token => .of_costs ?_
  rw [pure_bind]
  exact continues _

theorem nested {routine : Parser α}
    (costs : Costs limit (fun value => price value - 3) (failing - 3) routine)
    (enough : 1 ≤ failing) : Costs limit price failing (nested limit routine) := by
  rintro ⟨rest, depth⟩
  rcases Nat.lt_or_ge depth limit with room | full
  · obtain ⟨ended, moments, run, covered⟩ := costs ⟨rest, depth + 1⟩
    rw [Pays, nested_of_lt room]
    cases outcome : routine ⟨rest, depth + 1⟩ with
    | ok value after =>
        rw [outcome] at run covered
        refine ⟨trivial, _, .nested room run, ?_⟩
        simp only [Covered, charge, finalState, State.ascend, List.length_cons, List.length_append,
          List.length_nil] at covered ⊢
        omega
    | error error after =>
        rw [outcome] at ended run covered
        refine ⟨ended, _, .nested_error room run, ?_⟩
        simp only [Covered, charge, finalState, State.ascend, List.length_cons, List.length_append,
          List.length_nil] at covered ⊢
        omega
  · rw [Pays, nested_of_le full]
    refine ⟨by simp [LoopsEnd], _, .nested_full full, Int.le_trans (paid_one _ _) ?_⟩
    exact Int.add_le_add_left enough _

theorem levelled {routine : Parser α}
    (costs : Costs limit (fun value => price value - 1) failing routine) :
    Costs limit price failing (levelled routine) := by
  intro state
  obtain ⟨ended, moments, run, covered⟩ := costs state
  rw [Pays, levelled_eq]
  cases outcome : routine state with
  | ok value after =>
      rw [outcome] at run covered
      refine ⟨trivial, _, .levelled run, ?_⟩
      simp only [Covered, closed, charge, finalState, List.length_cons, List.length_append,
        List.length_nil] at covered ⊢
      omega
  | error error after =>
      rw [outcome] at ended run covered
      exact ⟨ended, moments, .levelled_error run, covered⟩

theorem iterate {step : α → Parser (ForInStep α)} (progressive : Progressive step)
    (costs : ∀ value, Costs limit (roundPrice price) failing (step value)) (value : α) :
    Costs limit price failing (iterate step value) := by
  intro state
  -- A round that is not the last passes a token: the induction is on the tokens left.
  induction length : state.rest.length using Nat.strongRecOn generalizing value state with
  | ind count induction =>
      subst length
      obtain ⟨ended, front, run, covered⟩ := costs value state
      rw [Pays]
      cases outcome : step value state with
      | error error after =>
          rw [outcome] at ended run covered
          rw [progressive.iterate_of_error outcome]
          exact ⟨ended, front, .iterate_error run, covered⟩
      | ok result between =>
          rw [outcome] at run covered
          cases result with
          | done result =>
              rw [progressive.iterate_of_done outcome]
              exact ⟨trivial, front, .done run, covered⟩
          | yield next =>
              rw [progressive.iterate_of_yield outcome]
              have shorter := progressive.length_lt outcome
              obtain ⟨endedOn, back, runOn, coveredOn⟩ := induction _ shorter next between rfl
              have paid : Covered (fun value => price value - 0) (failing - 0) between back
                  (Parser.iterate step next between) := by
                simpa only [Int.sub_zero] using coveredOn
              exact ⟨endedOn, front ++ back, .yield run runOn, paid.append covered⟩

/-- A routine that is paid for by the tokens it passes does pass one. -/
theorem passes {routine : Parser α} (costs : Costs limit (fun _ => -1) failing routine)
    (reads : Reads routine fun _ _ => True) : Reads routine fun passed _ => passed ≠ [] := by
  intro state value after succeeds
  obtain ⟨passed, split, going, -⟩ := reads succeeds
  refine ⟨passed, split, going, ?_⟩
  rintro rfl
  obtain ⟨-, moments, -, covered⟩ := costs state
  rw [succeeds, Covered, split] at covered
  simp only [charge, finalState, List.nil_append] at covered
  omega

/-! Lists. An item has to pass a token besides what it takes, to pay for the look at what
follows. -/

variable {item : Parser α} (costs : Costs limit (fun _ => -1) (failing - 1) item)
  (reads : Reads item fun _ _ => True)

include costs

theorem manyRound (closing : Token.Kind) (items : List α) :
    Costs limit (roundPrice fun _ => 1) failing (manyRound closing item items) := by
  refine .atEnd_bind fun _ => .ite (fun _ => .pure (by simp [roundPrice])) fun _ => ?_
  exact costs.bind (fun _ => .pure (by simp [roundPrice])) (Int.le_refl _)

theorem commaRound (closing : Token.Kind) (list : List α × Bool) :
    Costs limit (roundPrice fun _ => 1) failing (commaRound closing item list) := by
  refine .atEnd_bind fun _ => .ite (fun _ => .pure (by simp [roundPrice])) fun _ => ?_
  refine costs.bind (fun _ => ?_) (Int.le_refl _)
  exact .take_bind (by simp) (.pure (by simp [roundPrice])) (.pure (by simp [roundPrice]))

include reads

theorem many (closing : Token.Kind) : Costs limit (fun _ => 1) failing (many closing item) := by
  have rounds := iterate (progressive_manyRound (costs.passes reads)) (costs.manyRound closing) []
  exact rounds.bind (fun _ => .pure (by simp)) (Int.le_refl _)

theorem commaList (closing : Token.Kind) :
    Costs limit (fun _ => 1) failing (commaList closing item) := by
  have rounds := iterate (progressive_commaRound reads) (costs.commaRound closing) ([], false)
  exact rounds.bind (fun _ => .pure (by simp)) (Int.le_refl _)

theorem closedList (closing : Symbol) (enough : 2 ≤ failing) :
    Costs limit (fun _ => -21) failing (closedList closing item) := by
  refine (costs.commaList reads _).bind (fun _ => ?_) (Int.le_refl _)
  exact .consume_bind (by simp) (fun _ => .pure (by simp)) (by omega)

end Costs

end

end Covenant.Parser
