import Covenant.Proofs.Parser.Lockstep

/-! Every level that a routine opens is paid for by a token. The levels open and the tokens left
together never become more, so with a limit of at least the number of tokens there is always one
more level to open. An expression opens its level before it has passed a token; the routines for its
parts have to do without `spare` levels until the first token is passed. -/

namespace Covenant.Parser

variable {α β : Type}

structure Budget (limit levels spare : Nat) (state : State) : Prop where
  ended : ∃ last ∈ state.rest, last.kind = .eof
  levels : limit ≤ state.depth + levels
  spare : state.depth + state.rest.length + spare ≤ limit + 1

/-- At least `gain` tokens have been passed besides those that pay for the levels left open. -/
structure Paid (gain : Nat) (state after : State) : Prop where
  ended : ∃ last ∈ after.rest, last.kind = .eof
  depth : state.depth ≤ after.depth
  gain : after.depth + after.rest.length + gain ≤ state.depth + state.rest.length

def Afforded (gain : α → Nat) (state : State) :
    EStateM.Result CompileError State α → Prop
  | .ok value after => Paid (gain value) state after
  | .error error _ => ∀ limit, error ≠ .resource (.nestingTooDeep limit)

def Affords (limit levels spare : Nat) (gain : α → Nat) (routine : Parser α) : Prop :=
  ∀ ⦃state : State⦄, Budget limit levels spare state → Afforded gain state (routine state)

/-- The same where `next` comes first. -/
def AffordsAt (next : Token) (limit levels spare : Nat) (gain : α → Nat)
    (routine : Parser α) : Prop :=
  ∀ ⦃state : State⦄, state.next = next → Budget limit levels spare state →
    Afforded gain state (routine state)

section

variable {limit levels spare gain : Nat} {state after : State}

theorem Budget.depth_lt (budget : Budget limit levels (spare + 1) state) : state.depth < limit := by
  obtain ⟨last, member, _⟩ := budget.ended
  have length := List.length_pos_of_mem member
  have spared := budget.spare
  omega

theorem Budget.of_paid (budget : Budget limit levels spare state) (paid : Paid gain state after) :
    Budget limit levels (spare + gain) after := by
  obtain ⟨ended, depth, gained⟩ := paid
  obtain ⟨_, enough, spared⟩ := budget
  exact ⟨ended, by omega, by omega⟩

theorem Budget.deeper (budget : Budget limit (levels + 1) (spare + 1) state) :
    Budget limit levels spare { state with depth := state.depth + 1 } := by
  obtain ⟨ended, enough, spared⟩ := budget
  exact ⟨ended, by change limit ≤ state.depth + 1 + levels; omega,
    by change state.depth + 1 + state.rest.length + spare ≤ limit + 1; omega⟩

theorem Paid.refl (ended : ∃ last ∈ state.rest, last.kind = .eof) : Paid 0 state state :=
  ⟨ended, Nat.le_refl _, Nat.le_refl _⟩

theorem Paid.trans {more : Nat} {between : State} (first : Paid gain state between)
    (second : Paid more between after) : Paid (gain + more) state after := by
  obtain ⟨_, depth, gained⟩ := first
  obtain ⟨ended, depthAfter, gainedAfter⟩ := second
  exact ⟨ended, by omega, by omega⟩

theorem Paid.less {fewer : Nat} (paid : Paid gain state after) (less : fewer ≤ gain) :
    Paid fewer state after := by
  obtain ⟨ended, depth, gained⟩ := paid
  exact ⟨ended, depth, by omega⟩

/-- Passing a token pays for one level. -/
theorem Paid.advance (ended : ∃ last ∈ state.rest, last.kind = .eof)
    (going : state.next.kind ≠ .eof) : Paid 1 state { state with rest := state.rest.tail } := by
  obtain ⟨last, member, isEnd⟩ := ended
  have split := State.rest_of_next going
  rw [split] at member
  rcases List.mem_cons.1 member with rfl | behind
  · exact (going isEnd).elim
  · have length := congrArg List.length split
    rw [List.length_cons] at length
    exact ⟨⟨last, behind, isEnd⟩, Nat.le_refl _, by
      change state.depth + state.rest.tail.length + 1 ≤ state.depth + state.rest.length
      omega⟩

theorem Afforded.of_paid {between : State} {rest total : α → Nat}
    {result : EStateM.Result CompileError State α} (paid : Paid gain state between)
    (afforded : Afforded rest between result)
    (enough : ∀ value, total value ≤ gain + rest value) : Afforded total state result := by
  cases result with
  | error error after => exact afforded
  | ok value after => exact (paid.trans afforded).less (enough value)

end

namespace AffordsAt

variable {limit levels spare : Nat} {gain : α → Nat} {next : Token}

theorem of_affords {routine : Parser α} (affords : Affords limit levels spare gain routine) :
    AffordsAt next limit levels spare gain routine :=
  fun _ _ budget => affords budget

theorem advance_bind {continue_ : Token → Parser α} (going : next.kind ≠ .eof)
    (continues : Affords limit levels (spare + 1) gain (continue_ next)) :
    AffordsAt next limit levels spare (fun result => gain result + 1) (advance >>= continue_) := by
  rintro state rfl budget
  have passed : advance state = .ok state.next { state with rest := state.rest.tail } :=
    if_neg going
  rw [bind_of_ok passed]
  have paid := Paid.advance budget.ended going
  exact .of_paid paid (continues (budget.of_paid paid)) fun _ =>
    Nat.le_of_eq (Nat.add_comm _ _)

theorem less {fewer : α → Nat} {routine : Parser α}
    (affords : AffordsAt next limit levels spare gain routine)
    (less : ∀ value, fewer value ≤ gain value) :
    AffordsAt next limit levels spare fewer routine := by
  intro state isNext budget
  refine .of_paid (.refl budget.ended) (affords isNext budget) fun value => ?_
  rw [Nat.zero_add]
  exact less value

/-- A level opened in front of a token is paid for by what comes after. -/
theorem descend_bind {continue_ : Unit → Parser α}
    (continues : AffordsAt next limit levels spare (fun result => gain result + 1)
      (continue_ ())) :
    AffordsAt next limit levels (spare + 1) gain (descend limit >>= continue_) := by
  rintro ⟨rest, depth⟩ isNext budget
  rw [bind_of_ok (descend_of_lt budget.depth_lt)]
  have enough : limit ≤ depth + levels := budget.levels
  have spared : depth + rest.length + (spare + 1) ≤ limit + 1 := budget.spare
  have afforded := @continues ⟨rest, depth + 1⟩ isNext
    ⟨budget.ended, by change limit ≤ depth + 1 + levels; omega,
      by change depth + 1 + rest.length + spare ≤ limit + 1; omega⟩
  cases ran : continue_ () ⟨rest, depth + 1⟩ with
  | error error after =>
      rw [ran] at afforded
      exact afforded
  | ok result after =>
      rw [ran] at afforded
      have deeper : depth + 1 ≤ after.depth := afforded.depth
      have gained : after.depth + after.rest.length + (gain result + 1) ≤
          depth + 1 + rest.length := afforded.gain
      exact ⟨afforded.ended, Nat.le_of_succ_le deeper,
        by change after.depth + after.rest.length + gain result ≤ depth + rest.length; omega⟩

end AffordsAt

namespace Affords

variable {limit levels spare : Nat} {gain : α → Nat} {total : β → Nat} {routine : Parser α}

theorem mono {more fewer : Nat} {less : α → Nat} (affords : Affords limit levels spare gain routine)
    (fewerLevels : fewer ≤ levels) (moreSpare : spare ≤ more)
    (lessGain : ∀ value, less value ≤ gain value) : Affords limit fewer more less routine := by
  rintro state ⟨ended, enough, spared⟩
  refine .of_paid (.refl ended) (affords ⟨ended, by omega, by omega⟩) fun value => ?_
  rw [Nat.zero_add]
  exact lessGain value

/-- Whatever a routine gains can be left aside. -/
theorem forget (affords : Affords limit levels spare gain routine) :
    Affords limit levels spare (fun _ => 0) routine :=
  affords.mono (Nat.le_refl _) (Nat.le_refl _) fun _ => Nat.zero_le _

theorem spared (affords : Affords limit levels spare gain routine) {more : Nat}
    (moreSpare : spare ≤ more) : Affords limit levels more gain routine :=
  affords.mono (Nat.le_refl _) moreSpare fun _ => Nat.le_refl _

theorem pure (value : α) : Affords limit levels spare (fun _ => 0) (pure value) :=
  fun _ budget => Paid.refl budget.ended

theorem throw {error : CompileError} (other : ∀ limit, error ≠ .resource (.nestingTooDeep limit)) :
    Affords limit levels spare gain (throw error : Parser α) :=
  fun _ _ => other

theorem fail (pos : Position) (error : ParseError) :
    Affords limit levels spare gain (fail pos error) :=
  .throw (by simp)

theorem bind {rest : α → β → Nat} {next : α → Parser β}
    (affords : Affords limit levels spare gain routine)
    (continues : ∀ value, Affords limit levels (spare + gain value) (rest value) (next value))
    (enough : ∀ value result, total result ≤ gain value + rest value result) :
    Affords limit levels spare total (routine >>= next) := by
  intro state budget
  have afforded := affords budget
  change Afforded total state (EStateM.bind routine next state)
  rw [EStateM.bind]
  cases ran : routine state with
  | error error after =>
      rw [ran] at afforded
      exact afforded
  | ok value between =>
      rw [ran] at afforded
      exact .of_paid afforded (continues value (budget.of_paid afforded)) (enough value)

theorem seq {next : α → Parser β} (affords : Affords limit levels spare gain routine)
    (continues : ∀ value, Affords limit levels spare total (next value)) :
    Affords limit levels spare total (routine >>= next) :=
  affords.forget.bind continues fun _ _ => by omega

theorem earn {next : α → Parser β} (affords : Affords limit levels spare (fun _ => 1) routine)
    (continues : ∀ value, Affords limit levels (spare + 1) total (next value)) :
    Affords limit levels spare (fun result => total result + 1) (routine >>= next) :=
  affords.bind continues fun _ _ => by omega

theorem ite {condition : Prop} [Decidable condition] {yes no : Parser α}
    (affordsYes : Affords limit levels spare gain yes)
    (affordsNo : Affords limit levels spare gain no) :
    Affords limit levels spare gain (if condition then yes else no) := by
  split
  · exact affordsYes
  · exact affordsNo

/-! Reading tokens. -/

theorem peek_bind {next : Token → Parser β}
    (continues : ∀ token, AffordsAt token limit levels spare total (next token)) :
    Affords limit levels spare total (peek >>= next) :=
  fun state budget => continues state.next rfl budget

theorem advance_bind {next : Token → Parser β}
    (going : ∀ token, token.kind ≠ .eof → Affords limit levels (spare + 1) total (next token))
    (ended : ∀ token, token.kind = .eof →
      Affords limit levels spare (fun result => total result + 1) (next token)) :
    Affords limit levels spare (fun result => total result + 1) (advance >>= next) := by
  intro state budget
  by_cases isEnd : state.next.kind = .eof
  · have stays : advance state = .ok state.next state := if_pos isEnd
    rw [bind_of_ok stays]
    exact ended state.next isEnd budget
  · exact AffordsAt.advance_bind isEnd (going state.next isEnd) rfl budget

theorem consume_bind {kind : Token.Kind} (going : kind ≠ .eof) {next : Token → Parser β}
    (continues : ∀ token, Affords limit levels (spare + 1) total (next token)) :
    Affords limit levels spare total (consume kind >>= next) := by
  simp only [consume_eq, bind_assoc]
  refine .peek_bind fun token => ?_
  by_cases same : token.kind = kind
  · simp only [if_pos same, bind_assoc, pure_bind]
    have passed : AffordsAt token limit levels spare _ (advance >>= fun _ => next token) :=
      .advance_bind (same ▸ going) (continues token)
    exact passed.less fun _ => Nat.le_succ _
  · simp only [if_neg same]
    exact .of_affords (.fail _ _)

theorem take_bind {kind : Token.Kind} (going : kind ≠ .eof) {next : Bool → Parser β}
    (taken : Affords limit levels (spare + 1) total (next true))
    (left : Affords limit levels spare total (next false)) :
    Affords limit levels spare total (take kind >>= next) := by
  rw [take, bind_assoc]
  refine .peek_bind fun token => ?_
  by_cases same : token.kind = kind
  · simp only [if_pos same, bind_assoc, pure_bind]
    have passed : AffordsAt token limit levels spare _ (advance >>= fun _ => next true) :=
      .advance_bind (same ▸ going) taken
    exact passed.less fun _ => Nat.le_succ _
  · simp only [if_neg same, pure_bind]
    exact .of_affords left

theorem ident : Affords limit levels spare (fun _ => 0) ident :=
  consume_bind (by simp) fun _ => .pure _

theorem advance : Affords limit levels spare (fun _ => 0) advance := by
  intro state budget
  rw [Parser.advance]
  split
  · exact Paid.refl budget.ended
  · next going => exact (Paid.advance budget.ended going).less (Nat.zero_le _)

theorem take (kind : Token.Kind) : Affords limit levels spare (fun _ => 0) (take kind) :=
  peek_bind fun _ => .of_affords (.ite (advance.seq fun _ => .pure _) (.pure _))

theorem atEnd (closing : Token.Kind) : Affords limit levels spare (fun _ => 0) (atEnd closing) :=
  peek_bind fun _ => .of_affords (.pure _)

theorem isWord (word : String) : Affords limit levels spare (fun _ => 0) (isWord word) :=
  peek_bind fun _ => .of_affords (.pure _)

theorem takeWord (word : String) : Affords limit levels spare (fun _ => 0) (takeWord word) := by
  refine (isWord word).seq fun _ => .ite ?_ (.pure _)
  exact advance.seq fun _ => .pure _

/-! Nesting. -/

theorem nested (affords : Affords limit levels spare gain routine) :
    Affords limit (levels + 1) (spare + 1) gain (nested limit routine) := by
  rintro ⟨rest, depth⟩ budget
  have afforded := affords budget.deeper
  rw [nested_of_lt budget.depth_lt]
  cases ran : routine ⟨rest, depth + 1⟩ with
  | error error after =>
      rw [ran] at afforded
      exact afforded
  | ok value after =>
      rw [ran] at afforded
      have deeper : depth + 1 ≤ after.depth := afforded.depth
      have gained : after.depth + after.rest.length + gain value ≤ depth + 1 + rest.length :=
        afforded.gain
      exact ⟨afforded.ended, by change depth ≤ after.depth - 1; omega,
        by change after.depth - 1 + after.rest.length + gain value ≤ depth + rest.length; omega⟩

/-- Where no level is left for routines inside each other, the limit has been reached. -/
theorem exhausted : Affords limit 0 (spare + 1) gain routine :=
  fun _ budget => (Nat.not_lt.2 budget.levels budget.depth_lt).elim

theorem below {inner : Nat → Parser α}
    (affords : ∀ level < levels, Affords limit level spare gain (inner level)) :
    Affords limit levels (spare + 1) gain (below limit inner levels) := by
  cases levels with
  | zero => exact exhausted
  | succ level => exact (affords level (Nat.lt_succ_self level)).nested

theorem levelled (affords : Affords limit levels spare gain routine) :
    Affords limit levels spare gain (levelled routine) := by
  intro state budget
  have afforded := affords budget
  rw [levelled_eq]
  cases ran : routine state with
  | error error after =>
      rw [ran] at afforded
      exact afforded
  | ok value after =>
      rw [ran] at afforded
      obtain ⟨ended, depth, gained⟩ := afforded
      exact ⟨ended, Nat.le_refl _, by
        change state.depth + after.rest.length + gain value ≤ state.depth + state.rest.length
        omega⟩

/-! Repetition. -/

theorem iterate {step : α → Parser (ForInStep α)}
    (affords : ∀ value, Affords limit levels spare (fun _ => 0) (step value)) (value : α) :
    Affords limit levels spare (fun _ => 0) (iterate step value) := by
  intro state budget
  exact repeatWithin_of_bind (motive := Affords limit levels spare fun _ => 0) .pure
    (.throw (by simp)) (fun value _ => (affords value).seq) state.rest value budget

section

variable {item : Parser α} (affords : Affords limit levels spare gain item)

include affords

theorem many (closing : Token.Kind) :
    Affords limit levels spare (fun _ => 0) (many closing item) := by
  refine seq (iterate (fun items => ?_) []) fun _ => .pure _
  exact (atEnd closing).seq fun _ => .ite (.pure _) (affords.seq fun _ => .pure _)

theorem closedList (closing : Symbol) :
    Affords limit levels spare (fun _ => 0) (closedList closing item) := by
  refine seq (seq (iterate (fun list => ?_) _) fun _ => .pure _) fun _ =>
    consume_bind (by simp) fun _ => .pure _
  refine (atEnd _).seq fun _ => .ite (.pure _) (affords.seq fun _ => ?_)
  exact .take_bind (by simp) (.pure _) (.pure _)

end

end Affords

end Covenant.Parser
