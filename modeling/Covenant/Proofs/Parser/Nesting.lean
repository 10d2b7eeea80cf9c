import Covenant.Proofs.Program.Balance

/-! What a routine gives, by the number of levels that are open when it starts. Most routines close
what they open, so this number is known again after each of their steps. -/

namespace Covenant.Parser

variable {α β : Type}

def Yields (depth : Nat) (routine : Parser α) (Result : α → Prop) : Prop :=
  ∀ ⦃state : State⦄ ⦃value : α⦄ ⦃after : State⦄, state.depth = depth →
    routine state = .ok value after → Result value

theorem descend_eq_ok {limit : Nat} {state after : State}
    (succeeds : descend limit state = .ok () after) :
    state.depth < limit ∧ after = { state with depth := state.depth + 1 } := by
  rcases Nat.lt_or_ge state.depth limit with room | full
  · rw [show descend limit state = _ from descend_of_lt room] at succeeds
    cases succeeds
    exact ⟨room, rfl⟩
  · rw [show descend limit state = _ from descend_of_le full] at succeeds
    cases succeeds

/-- A loop may leave levels open from round to round, so what holds after each round can mention
how many they are. -/
theorem iterate_keeps {step : α → Parser (ForInStep α)} (Kept : α → Nat → Prop)
    (round : ∀ ⦃value state result after⦄, Kept value state.depth →
      step value state = .ok result after → Kept result.value after.depth)
    {value result : α} {state after : State} (start : Kept value state.depth)
    (succeeds : iterate step value state = .ok result after) : Kept result after.depth := by
  refine repeatWithin_induction (motive := fun rounds => ∀ value (state : State),
    Kept value state.depth → rounds value state = .ok result after → Kept result after.depth)
    ?_ ?_ state.rest value state start succeeds
  · intro value state kept ended
    cases ended
  · intro rounds keeps value state kept ended
    obtain ⟨outcome, between, stepped, continued⟩ := bind_eq_ok_iff.1 ended
    have next := round kept stepped
    cases outcome with
    | done value =>
        cases continued
        exact next
    | yield value => exact keeps value between next continued

namespace Yields

variable {depth : Nat} {Result : α → Prop} {After : β → Prop}

theorem mono {Weaker : α → Prop} {routine : Parser α} (yields : Yields depth routine Result)
    (weaker : ∀ value, Result value → Weaker value) : Yields depth routine Weaker := by
  intro state value after opened succeeds
  apply weaker
  exact yields opened succeeds

theorem pure {value : α} (result : Result value) : Yields depth (pure value) Result := by
  intro state other after opened succeeds
  cases succeeds
  exact result

theorem throw (error : CompileError) : Yields depth (throw error) Result := by
  intro state value after opened succeeds
  cases succeeds

theorem ite {condition : Prop} [Decidable condition] {yes no : Parser α}
    (yieldsYes : Yields depth yes Result) (yieldsNo : Yields depth no Result) :
    Yields depth (if condition then yes else no) Result := by
  split
  · exact yieldsYes
  · exact yieldsNo

theorem bind {first : Parser α} {next : α → Parser β} (yields : Yields depth first Result)
    (balanced : Balanced first)
    (continues : ∀ value, Result value → Yields depth (next value) After) :
    Yields depth (first >>= next) After := by
  intro state value after opened succeeds
  obtain ⟨middle, between, started, finished⟩ := bind_eq_ok_iff.1 succeeds
  have still : between.depth = depth := (balanced started).trans opened
  exact continues middle (yields opened started) still finished

/-- A step whose value does not matter. -/
theorem skip {first : Parser α} {next : α → Parser β} (balanced : Balanced first)
    (continues : ∀ value, Yields depth (next value) After) :
    Yields depth (first >>= next) After :=
  bind (fun _ _ _ _ _ => trivial) balanced fun value (_ : True) => continues value

theorem nested {limit : Nat} {routine : Parser α}
    (yields : depth < limit → Yields (depth + 1) routine Result) :
    Yields depth (nested limit routine) Result := by
  rintro ⟨rest, levels⟩ value after opened succeeds
  obtain rfl : levels = depth := opened
  rcases Nat.lt_or_ge levels limit with room | full
  · rw [nested_of_lt room] at succeeds
    split at succeeds
    · next ended =>
        cases succeeds
        exact yields room rfl ended
    · cases succeeds
  · rw [nested_of_le full] at succeeds
    cases succeeds

theorem levelled {routine : Parser α} (yields : Yields depth routine Result) :
    Yields depth (levelled routine) Result := by
  intro state value after opened succeeds
  rw [levelled_eq] at succeeds
  cases ran : routine state with
  | ok result between =>
      rw [ran] at succeeds
      cases succeeds
      exact yields opened ran
  | error error between =>
      rw [ran] at succeeds
      cases succeeds

theorem iterate {step : α → Parser (ForInStep α)} (balanced : ∀ value, Balanced (step value))
    (round : ∀ value, Result value →
      Yields depth (step value) fun result => Result result.value)
    {value : α} (start : Result value) : Yields depth (iterate step value) Result := by
  intro state result after opened succeeds
  have kept : Result result ∧ after.depth = depth := by
    apply iterate_keeps (fun value levels => Result value ∧ levels = depth) ?_ ⟨start, opened⟩
      succeeds
    intro value state result after kept stepped
    exact ⟨round value kept.1 kept.2 stepped, (balanced value stepped).trans kept.2⟩
  exact kept.1

section

variable {item : Parser α} (yields : Yields depth item Result) (balanced : Balanced item)

include yields balanced

theorem many (closing : Token.Kind) :
    Yields depth (many closing item) fun items => ∀ value ∈ items, Result value := by
  have round (items : List α) (results : ∀ value ∈ items, Result value) :
      Yields depth (manyRound closing item items) fun outcome =>
        ∀ value ∈ outcome.value, Result value := by
    refine skip (Balanced.atEnd closing) fun _ => .ite (.pure results) ?_
    refine yields.bind balanced fun value result => .pure ?_
    exact List.forall_mem_cons.2 ⟨result, results⟩
  have rounds := iterate (balanced.manyRound closing) round (List.forall_mem_nil _)
  refine rounds.bind (.iterate (balanced.manyRound closing) _) fun items results => .pure ?_
  exact fun value member => results value (List.mem_reverse.1 member)

theorem commaList (closing : Token.Kind) :
    Yields depth (commaList closing item) fun list => ∀ value ∈ list.1, Result value := by
  have round (list : List α × Bool) (results : ∀ value ∈ list.1, Result value) :
      Yields depth (commaRound closing item list) fun outcome =>
        ∀ value ∈ outcome.value.1, Result value := by
    refine skip (Balanced.atEnd _) fun _ => .ite (.pure results) ?_
    refine yields.bind balanced fun value result => skip (Balanced.take _) fun _ => ?_
    have more : ∀ other ∈ value :: list.1, Result other :=
      List.forall_mem_cons.2 ⟨result, results⟩
    exact .ite (.pure more) (.pure more)
  have start : ∀ value ∈ (([], false) : List α × Bool).1, Result value := List.forall_mem_nil _
  have rounds := iterate (balanced.commaRound closing) round start
  refine rounds.bind (.iterate (balanced.commaRound closing) _) fun list results => .pure ?_
  exact fun value member => results value (List.mem_reverse.1 member)

theorem closedList (closing : Symbol) :
    Yields depth (closedList closing item) fun list => ∀ value ∈ list.1, Result value := by
  refine (yields.commaList balanced _).bind (balanced.commaList _) fun list results => ?_
  exact .skip (.consume _) fun _ => .pure results

end

end Yields

end Covenant.Parser
