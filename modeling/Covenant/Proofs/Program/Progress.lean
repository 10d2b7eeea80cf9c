import Covenant.Proofs.Program.Moments
import Covenant.Proofs.Program.Recursion

/-! The parser makes progress and stops. What it reads is passed, its loops and its recursion are
bounded by the tokens left, and so is the length of its runs, however many levels are allowed. The
rounds of a loop are counted here without the bound that it runs under, which no loop ever meets. -/

namespace Covenant.Parser

variable {α : Type} {limit : Nat}

/-- The tokens of an input, or the last ones of them: only the very last one ends the input. -/
def EndsOnce (tokens : List Token) : Prop :=
  ∃ written last, tokens = written ++ [last] ∧ last.kind = .eof ∧
    ∀ token ∈ written, token.kind ≠ .eof

namespace EndsOnce

theorem length_pos {tokens : List Token} (endsOnce : EndsOnce tokens) : 0 < tokens.length := by
  obtain ⟨written, last, rfl, -⟩ := endsOnce
  simp

theorem of_cons {token : Token} {rest : List Token} (endsOnce : EndsOnce (token :: rest))
    (going : token.kind ≠ .eof) : EndsOnce rest := by
  obtain ⟨written, last, split, isEnd, before⟩ := endsOnce
  cases written with
  | nil =>
      obtain ⟨rfl, -⟩ := List.cons.inj split
      exact (going isEnd).elim
  | cons first written =>
      obtain ⟨rfl, rfl⟩ := List.cons.inj split
      exact ⟨written, last, rfl, isEnd, fun other member => before other (.tail _ member)⟩

theorem of_append {passed rest : List Token} (endsOnce : EndsOnce (passed ++ rest))
    (going : ∀ token ∈ passed, token.kind ≠ .eof) : EndsOnce rest := by
  induction passed with
  | nil => exact endsOnce
  | cons token passed induction =>
      obtain ⟨first, others⟩ := List.forall_mem_cons.1 going
      exact induction (endsOnce.of_cons first) others

end EndsOnce

/-! Routines that pass a token whenever they succeed. -/

inductive Passing (limit : Nat) : {α : Type} → Parser α → Prop where
  | contract : Passing limit (contract limit)
  | stateVar : Passing limit (stateVar limit)
  | type (levels : Nat) : Passing limit (typeWithin limit levels)
  | function : Passing limit (function limit)
  | parameter : Passing limit (parameter limit)
  | struct : Passing limit (struct limit)
  | stmt (levels : Nat) : Passing limit (stmt limit (blockWithin limit levels))
  | expr (levels : Nat) : Passing limit (exprWithin limit levels)
  | property (levels : Nat) : Passing limit (property (exprWithin limit levels))

namespace Passing

variable {routine : Parser α}

theorem reads (passing : Passing limit routine) : Reads routine fun _ _ => True := by
  cases passing with
  | contract => exact RepeatedItem.contract.reads
  | stateVar => exact reads_stateVar.mono fun _ _ _ => trivial
  | type levels => exact (reads_typeWithin limit levels).mono fun _ _ _ => trivial
  | function => exact reads_function.mono fun _ _ _ => trivial
  | parameter => exact ListItem.parameter.reads
  | struct => exact reads_struct.mono fun _ _ _ => trivial
  | stmt levels => exact (RepeatedItem.stmt levels).reads
  | expr levels => exact (ListItem.expr levels).reads
  | property levels => exact (ListItem.property levels).reads

theorem costs (passing : Passing limit routine) : Costs limit (fun _ => -1) 7 routine := by
  cases passing with
  | contract => exact RepeatedItem.contract.costs
  | stateVar => exact costs_stateVar.mono (fun _ => by omega) (by omega)
  | type levels => exact (costs_typeWithin levels).mono (fun _ => by omega) (by omega)
  | function => exact costs_function.mono (fun _ => by omega) (by omega)
  | parameter => exact ListItem.parameter.costs.mono (fun _ => by omega) (by omega)
  | struct => exact costs_struct.mono (fun _ => by omega) (by omega)
  | stmt levels => exact (RepeatedItem.stmt levels).costs
  | expr levels => exact (ListItem.expr levels).costs.mono (fun _ => by omega) (by omega)
  | property levels => exact (ListItem.property levels).costs.mono (fun _ => by omega) (by omega)

theorem moves_forward (passing : Passing limit routine) {state after : State} {value : α}
    (endsOnce : EndsOnce state.rest) (succeeds : routine state = .ok value after) :
    ∃ passed, passed ≠ [] ∧ state.rest = passed ++ after.rest ∧ EndsOnce after.rest := by
  obtain ⟨passed, split, going, nonempty⟩ := passing.costs.passes passing.reads succeeds
  exact ⟨passed, nonempty, split, .of_append (split ▸ endsOnce) going⟩

end Passing

/-! Loops. -/

/-- `Rounds step count value state result` says that the loop takes `count` rounds, the last one
included. -/
inductive Rounds (step : α → Parser (ForInStep α)) :
    Nat → α → State → EStateM.Result CompileError State α → Prop where
  | done {value result : α} {state after : State} :
      step value state = .ok (.done result) after → Rounds step 1 value state (.ok result after)
  | error {value : α} {state after : State} {error : CompileError} :
      step value state = .error error after → Rounds step 1 value state (.error error after)
  | yield {value next : α} {state between : State} {count : Nat}
      {result : EStateM.Result CompileError State α} :
      step value state = .ok (.yield next) between → Rounds step count next between result →
        Rounds step (count + 1) value state result

/-- All loops of the parser. -/
inductive Loop (limit : Nat) : {α : Type} → (α → Parser (ForInStep α)) → Prop where
  | many {α : Type} {item : Parser α} (closing : Token.Kind) :
      RepeatedItem limit item → Loop limit (manyRound closing item)
  | commaList {α : Type} {item : Parser α} (closing : Token.Kind) :
      ListItem limit item → Loop limit (commaRound closing item)
  | operators (levels operators : Nat) (level : BinaryOp.Level) (tighter : List BinaryOp.Level) :
      Loop limit (operatorRound limit level
        (binary limit (unaryWithin limit (primary limit (exprWithin limit levels)) operators)
          tighter))
  | accesses (levels : Nat) : Loop limit (accessRound limit (exprWithin limit levels))
  | brackets : Loop limit bracketsRound
  | modifiers : Loop limit modifierRound

theorem Loop.progressive {step : α → Parser (ForInStep α)} (loop : Loop limit step) :
    Progressive step := by
  cases loop with
  | many closing repeated => exact progressive_manyRound (repeated.costs.passes repeated.reads)
  | commaList closing listed => exact progressive_commaRound listed.reads
  | operators levels operators level tighter =>
      refine progressive_operatorRound (Reads.mono (reads_binary ?_ tighter) fun _ _ _ => trivial)
      exact reads_unaryWithin (reads_primary (reads_exprWithin limit levels)) operators
  | accesses levels => exact progressive_accessRound (reads_exprWithin limit levels)
  | brackets => exact progressive_bracketsRound
  | modifiers => exact progressive_modifierRound

/-- Every round but the last passes a token, and the token that ends the input is not passed. -/
theorem Progressive.exists_rounds {step : α → Parser (ForInStep α)} (progressive : Progressive step)
    (value : α) {state : State} (endsOnce : EndsOnce state.rest) :
    ∃ count ≤ state.rest.length, Rounds step count value state (iterate step value state) := by
  induction length : state.rest.length using Nat.strongRecOn generalizing value state with
  | ind left induction =>
      subst length
      have positive := endsOnce.length_pos
      cases outcome : step value state with
      | error error after =>
          rw [progressive.iterate_of_error outcome]
          exact ⟨1, positive, .error outcome⟩
      | ok result between =>
          cases result with
          | done result =>
              rw [progressive.iterate_of_done outcome]
              exact ⟨1, positive, .done outcome⟩
          | yield next =>
              obtain ⟨passed, split, going, -⟩ := progressive value outcome
              have shorter := progressive.length_lt outcome
              have endsOn : EndsOnce between.rest := .of_append (split ▸ endsOnce) going
              obtain ⟨count, few, rounds⟩ := induction _ shorter next endsOn rfl
              rw [progressive.iterate_of_yield outcome]
              exact ⟨count + 1, by omega, .yield outcome rounds⟩

/-! Recursion and whole runs. -/

/-- With so many levels the recursive routines do what they do with as many as the limit allows. -/
structure LevelsSuffice (limit levels : Nat) (state : State) : Prop where
  type : typeWithin limit levels state = typeName limit state
  expr : exprWithin limit levels state = expr limit state
  unary : unaryWithin limit (primary limit (Parser.expr limit)) levels state =
    unaryWithin limit (primary limit (Parser.expr limit)) limit state
  block : blockWithin limit levels state = block limit state
  branch : branchWithin limit (Parser.expr limit) (Parser.block limit) levels state =
    branchWithin limit (Parser.expr limit) (Parser.block limit) limit state

theorem levelsSuffice {levels : Nat} {state : State} (enough : state.rest.length < levels) :
    LevelsSuffice limit levels state where
  type := typeWithin_eq_of_lt enough
  expr := exprWithin_eq_of_lt enough
  unary := unaryWithin_eq_of_lt enough
  block := blockWithin_eq_of_lt enough
  branch := branchWithin_eq_of_lt enough

theorem Costs.loopsEnd {routine : Parser α} {price : α → Int} {failing : Int}
    (costs : Costs limit price failing routine) (state : State) : LoopsEnd (routine state) :=
  (costs state).1

theorem Costs.exists_run {routine : Parser α} {price failing : Int} {most : Nat}
    (costs : Costs limit (fun _ => price) failing routine) (cheap : price ≤ most)
    (fails : failing ≤ most) (state : State) :
    ∃ moments, Runs limit routine state moments (routine state) ∧
      moments.length ≤ 24 * state.rest.length + most := by
  obtain ⟨-, moments, run, covered⟩ := costs state
  refine ⟨moments, run, ?_⟩
  rw [Covered] at covered
  cases outcome : routine state with
  | ok value after =>
      rw [outcome, charge] at covered
      omega
  | error error after =>
      rw [outcome, charge] at covered
      omega

/-- The parser makes progress and stops. Routines that succeed have passed a token, and never the
one that ends the input; a loop takes no more rounds than tokens are left; one level more than
tokens is as good as any number; and whatever the tokens and the limit are, no loop gives up for
want of tokens while a program or an expression is read, and the number of steps is linear in the
tokens. -/
theorem progress_and_termination (limit : Nat) :
    (∀ {α : Type} {routine : Parser α}, Passing limit routine →
      ∀ {state after : State} {value : α}, EndsOnce state.rest →
        routine state = .ok value after →
          ∃ passed, passed ≠ [] ∧ state.rest = passed ++ after.rest ∧ EndsOnce after.rest) ∧
      (∀ {α : Type} {step : α → Parser (ForInStep α)}, Loop limit step →
        ∀ (value : α) {state : State}, EndsOnce state.rest →
          ∃ count ≤ state.rest.length, Rounds step count value state (iterate step value state)) ∧
      (∀ {levels : Nat} {state : State}, state.rest.length < levels →
        LevelsSuffice limit levels state) ∧
      (∀ state : State, LoopsEnd (program limit state) ∧ LoopsEnd (wholeExpr limit state) ∧
        LoopsEnd (expr limit state)) ∧
      ∀ state : State,
        (∃ moments, Runs limit (program limit) state moments (program limit state) ∧
          moments.length ≤ 24 * state.rest.length + 3) ∧
        (∃ moments, Runs limit (wholeExpr limit) state moments (wholeExpr limit state) ∧
          moments.length ≤ 24 * state.rest.length + 5) ∧
        ∃ moments, Runs limit (expr limit) state moments (expr limit state) ∧
          moments.length ≤ 24 * state.rest.length + 5 := by
  refine ⟨fun passing _ _ _ => passing.moves_forward,
    fun loop value _ => loop.progressive.exists_rounds value, levelsSuffice, fun state => ?_,
    fun state => ?_⟩
  · exact ⟨costs_program.loopsEnd state, costs_wholeExpr.loopsEnd state,
      (costs_exprWithin limit).loopsEnd state⟩
  · refine ⟨costs_program.exists_run ?_ ?_ state, costs_wholeExpr.exists_run ?_ ?_ state,
      (costs_exprWithin limit).exists_run ?_ ?_ state⟩
    all_goals simp

/-- A number with a bracket after it that is never closed. The number is read as an expression; no
brackets follow a type there; three levels are as good as any; and no program is found soon, and not
because a loop gives up. -/
theorem progress_and_termination_unclosed :
    let number : Token := ⟨.number, "1", .ofBounds 0 1, .start⟩
    let bracket : Token := ⟨.symbol .lbracket, "[", .ofBounds 1 2, .start⟩
    let last : Token := .endOfInput .start
    (exprWithin 9 9 ⟨[number, bracket, last], 0⟩ =
        .ok (.literal .start (.number "1")) ⟨[bracket, last], 0⟩ ∧
      ∃ passed, passed ≠ [] ∧ [number, bracket, last] = passed ++ [bracket, last] ∧
        EndsOnce [bracket, last]) ∧
      (∃ count ≤ 2, Rounds bracketsRound count (.named "a") ⟨[bracket, last], 0⟩
        (iterate bracketsRound (.named "a") ⟨[bracket, last], 0⟩)) ∧
      LevelsSuffice 9 3 ⟨[bracket, last], 0⟩ ∧
      LoopsEnd (program 9 ⟨[number, bracket, last], 0⟩) ∧
      ∃ moments, Runs 9 (program 9) ⟨[number, bracket, last], 0⟩ moments
          (program 9 ⟨[number, bracket, last], 0⟩) ∧ moments.length ≤ 75 := by
  intro number bracket last
  obtain ⟨passes, rounds, levels, loopsEnd, runs⟩ := progress_and_termination 9
  have whole : EndsOnce [number, bracket, last] := ⟨[number, bracket], last, by decide⟩
  have rest : EndsOnce [bracket, last] := ⟨[bracket], last, by decide⟩
  have read : exprWithin 9 9 ⟨[number, bracket, last], 0⟩ =
      .ok (.literal .start (.number "1")) ⟨[bracket, last], 0⟩ := rfl
  refine ⟨⟨read, passes (.expr 9) whole read⟩, ?_, levels (Nat.lt_succ_self 2), (loopsEnd _).1,
    (runs _).1⟩
  exact @rounds _ _ .brackets (.named "a") ⟨[bracket, last], 0⟩ rest

end Covenant.Parser
