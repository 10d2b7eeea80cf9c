import Covenant.Proofs.Parser.Lockstep
import Mathlib

/-! How far routines look. A `Prompt` routine settles what it does when it sees the first token that it
does not pass: the tokens after that one change nothing, and a parse error is reported at that one. -/

namespace Covenant.Parser

variable {α β : Type}

/-- The tokens of an input that has an end. -/
def Ended (tokens : List Token) : Prop :=
  ∃ last ∈ tokens, last.kind = .eof

namespace Ended

theorem exists_cons {tokens : List Token} (ended : Ended tokens) :
    ∃ token rest, tokens = token :: rest := by
  obtain ⟨last, member, -⟩ := ended
  exact List.exists_cons_of_ne_nil (List.ne_nil_of_mem member)

theorem of_append {passed rest : List Token} (ended : Ended (passed ++ rest))
    (going : ∀ token ∈ passed, token.kind ≠ .eof) : Ended rest := by
  obtain ⟨last, member, isEnd⟩ := ended
  rcases List.mem_append.1 member with inFront | inRest
  · exact (going last inFront isEnd).elim
  · exact ⟨last, inRest, isEnd⟩

theorem of_cons {token : Token} {rest : List Token} (ended : Ended (token :: rest))
    (going : token.kind ≠ .eof) : Ended rest :=
  @of_append [token] rest ended (by simpa using going)

end Ended

/-- The errors that a routine can end with where `token` comes next. -/
inductive ReportedAt (token : Token) : CompileError → Prop where
  | parse (error : ParseError) : ReportedAt token (.parse ⟨token.pos, error⟩)
  | resource (error : ResourceError) : ReportedAt token (.resource error)

/-- What a routine does with the tokens `passed ++ token :: rest`, whatever `rest` is. -/
inductive Decided (routine : Parser α) (depth : Nat) (tokens : List Token) : Prop where
  | ok (passed : List Token) (token : Token) (rest : List Token) (value : α) (after : Nat)
      (split : tokens = passed ++ token :: rest) (going : ∀ other ∈ passed, other.kind ≠ .eof)
      (succeeds : ∀ others,
        routine ⟨passed ++ token :: others, depth⟩ = .ok value ⟨token :: others, after⟩)
  | error (passed : List Token) (token : Token) (rest : List Token) (error : CompileError)
      (split : tokens = passed ++ token :: rest) (going : ∀ other ∈ passed, other.kind ≠ .eof)
      (reported : ReportedAt token error)
      (fails : ∀ others, ∃ after, routine ⟨passed ++ token :: others, depth⟩ = .error error after)

/-- Another rest leaves the first token as it is. -/
theorem exists_cons_of_split {token next : Token} {passed rest others : List Token}
    (split : token :: rest = passed ++ next :: others) (more : List Token) :
    ∃ back, passed ++ next :: more = token :: back := by
  cases passed with
  | nil =>
      obtain ⟨rfl, -⟩ := List.cons.inj split
      exact ⟨more, rfl⟩
  | cons first passed =>
      obtain ⟨rfl, -⟩ := List.cons.inj split
      exact ⟨passed ++ next :: more, rfl⟩

namespace Decided

variable {depth : Nat} {tokens : List Token}

theorem bind {first : Parser α} {next : α → Parser β} (decided : Decided first depth tokens)
    (ended : Ended tokens)
    (continues : ∀ value after token rest,
      first ⟨tokens, depth⟩ = .ok value ⟨token :: rest, after⟩ → Ended (token :: rest) →
        Decided (next value) after (token :: rest)) :
    Decided (first >>= next) depth tokens := by
  cases decided with
  | error passed token rest error split going reported fails =>
      refine .error passed token rest error split going reported fun others => ?_
      obtain ⟨after, failed⟩ := fails others
      exact ⟨after, bind_of_error failed next⟩
  | ok passed token rest value after split going succeeds =>
      -- The token that the first routine has stopped at is seen by the second one too, so that only
      -- what comes behind the stop of the second is free.
      have started : first ⟨tokens, depth⟩ = .ok value ⟨token :: rest, after⟩ := by
        rw [split, succeeds]
      have endedRest : Ended (token :: rest) := by
        rw [split] at ended
        exact ended.of_append going
      cases continues value after token rest started endedRest with
      | ok more last others result final splitMore goingMore succeedsMore =>
          refine .ok (passed ++ more) last others result final ?_ ?_ fun others => ?_
          · rw [split, splitMore, List.append_assoc]
          · exact List.forall_mem_append.2 ⟨going, goingMore⟩
          · obtain ⟨back, front⟩ := exists_cons_of_split splitMore others
            rw [List.append_assoc, front, bind_of_ok (succeeds back), ← front, succeedsMore]
      | error more last others error splitMore goingMore reported fails =>
          refine .error (passed ++ more) last others error ?_ ?_ reported fun others => ?_
          · rw [split, splitMore, List.append_assoc]
          · exact List.forall_mem_append.2 ⟨going, goingMore⟩
          · obtain ⟨back, front⟩ := exists_cons_of_split splitMore others
            obtain ⟨final, failed⟩ := fails others
            refine ⟨final, ?_⟩
            rw [List.append_assoc, front, bind_of_ok (succeeds back), ← front, failed]

/-- A routine that does the same wherever the first token stands. -/
theorem congr {routine other : Parser α} {otherDepth : Nat} {token : Token} {rest : List Token}
    (decided : Decided other otherDepth (token :: rest))
    (same : ∀ rest, routine ⟨token :: rest, depth⟩ = other ⟨token :: rest, otherDepth⟩) :
    Decided routine depth (token :: rest) := by
  cases decided with
  | ok passed next others value after split going succeeds =>
      refine .ok passed next others value after split going fun more => ?_
      obtain ⟨back, front⟩ := exists_cons_of_split split more
      rw [front, same, ← front, succeeds]
  | error passed next others error split going reported fails =>
      refine .error passed next others error split going reported fun more => ?_
      obtain ⟨back, front⟩ := exists_cons_of_split split more
      rw [front, same, ← front]
      exact fails more

theorem nested {routine : Parser α} {limit : Nat} (room : depth < limit)
    (decided : Decided routine (depth + 1) tokens) : Decided (nested limit routine) depth tokens := by
  cases decided with
  | ok passed token rest value after split going succeeds =>
      refine .ok passed token rest value (after - 1) split going fun others => ?_
      rw [nested_of_lt room, succeeds]
      rfl
  | error passed token rest error split going reported fails =>
      refine .error passed token rest error split going reported fun others => ?_
      obtain ⟨after, failed⟩ := fails others
      exact ⟨after.ascend, by rw [nested_of_lt room, failed]⟩

theorem levelled {routine : Parser α} (decided : Decided routine depth tokens) :
    Decided (levelled routine) depth tokens := by
  cases decided with
  | ok passed token rest value after split going succeeds =>
      refine .ok passed token rest value depth split going fun others => ?_
      rw [levelled_eq, succeeds]
      rfl
  | error passed token rest error split going reported fails =>
      refine .error passed token rest error split going reported fun others => ?_
      obtain ⟨after, failed⟩ := fails others
      exact ⟨after, by rw [levelled_eq, failed]; rfl⟩

end Decided

/-- Prompt where `token` comes first. -/
def PromptAt (token : Token) (routine : Parser α) : Prop :=
  ∀ rest depth, Ended (token :: rest) → Decided routine depth (token :: rest)

def Prompt (routine : Parser α) : Prop :=
  ∀ token, PromptAt token routine

namespace PromptAt

variable {token : Token}

theorem pure (value : α) : PromptAt token (pure value) :=
  fun rest depth _ => .ok [] token rest value depth rfl (by simp) fun _ => rfl

theorem fail (error : ParseError) : PromptAt token (fail token.pos error : Parser α) := by
  intro rest depth _
  exact .error [] token rest _ rfl (by simp) (.parse error) fun _ => ⟨_, rfl⟩

theorem tooDeep (limit : Nat) : PromptAt token (tooDeep limit : Parser α) := by
  intro rest depth _
  exact .error [] token rest _ rfl (by simp) (.resource (.nestingTooDeep limit)) fun _ => ⟨_, rfl⟩

theorem bind {first : Parser α} {next : α → Parser β} (prompt : PromptAt token first)
    (continues : ∀ value, Prompt (next value)) : PromptAt token (first >>= next) :=
  fun rest depth ended => (prompt rest depth ended).bind ended
    fun value after other others _ endedRest => continues value other others after endedRest

theorem ite {condition : Prop} [Decidable condition] {yes no : Parser α}
    (promptYes : PromptAt token yes) (promptNo : PromptAt token no) :
    PromptAt token (if condition then yes else no) := by
  split
  · exact promptYes
  · exact promptNo

theorem congr {routine other : Parser α} (prompt : PromptAt token other)
    (same : ∀ rest depth, routine ⟨token :: rest, depth⟩ = other ⟨token :: rest, depth⟩) :
    PromptAt token routine :=
  fun rest depth ended => (prompt rest depth ended).congr fun rest => same rest depth

theorem peek_bind {next : Token → Parser β} (prompt : PromptAt token (next token)) :
    PromptAt token (peek >>= next) :=
  prompt.congr fun _ _ => bind_of_ok peek_cons next

/-- The token that ends the input stays. -/
theorem advance_bind_of_eof {next : Token → Parser β} (isEnd : token.kind = .eof)
    (prompt : PromptAt token (next token)) : PromptAt token (advance >>= next) :=
  prompt.congr fun _ _ => bind_of_ok (if_pos isEnd) next

theorem advance_bind_of_ne {next : Token → Parser β} (going : token.kind ≠ .eof)
    (prompt : Prompt (next token)) : PromptAt token (advance >>= next) := by
  intro rest depth ended
  have passes : Decided advance depth (token :: rest) := by
    obtain ⟨other, others, rfl⟩ := (ended.of_cons going).exists_cons
    exact .ok [token] other others token depth rfl (by simpa using going)
      fun _ => advance_cons going
  refine passes.bind ended fun value after other others advanced endedRest => ?_
  rw [advance_cons going] at advanced
  cases advanced
  exact prompt other others depth endedRest

/-- The token that is passed last is still the one that comes next for an error reported there. -/
theorem advance_bind_fail {next : Token → Parser β} {error : ParseError}
    (fails : next token = Parser.fail token.pos error) : PromptAt token (advance >>= next) := by
  by_cases isEnd : token.kind = .eof
  · exact .advance_bind_of_eof isEnd (fails ▸ .fail error)
  · intro rest depth _
    refine .error [] token rest _ rfl (by simp) (.parse error) fun others => ⟨⟨others, depth⟩, ?_⟩
    rw [List.nil_append, bind_of_ok (advance_cons isEnd), fails]
    rfl

theorem nested {routine : Parser α} (prompt : PromptAt token routine) (limit : Nat) :
    PromptAt token (nested limit routine) := by
  intro rest depth ended
  rcases Nat.lt_or_ge depth limit with room | full
  · exact (prompt rest (depth + 1) ended).nested room
  · exact (tooDeep limit rest depth ended).congr fun _ => nested_of_le full routine

theorem descend (limit : Nat) : PromptAt token (descend limit) := by
  intro rest depth ended
  rcases Nat.lt_or_ge depth limit with room | full
  · exact .ok [] token rest () (depth + 1) rfl (by simp) fun _ => descend_of_lt room
  · exact (tooDeep limit rest depth ended).congr fun _ => descend_of_le full

end PromptAt

/-- What may come after a token that has just been passed. -/
inductive PromptAfter (token : Token) : Parser α → Prop where
  | prompt {routine : Parser α} : Prompt routine → PromptAfter token routine
  | fail (error : ParseError) : PromptAfter token (fail token.pos error)

namespace Prompt

theorem pure (value : α) : Prompt (pure value) :=
  fun _ => .pure value

theorem tooDeep (limit : Nat) : Prompt (tooDeep limit : Parser α) :=
  fun _ => .tooDeep limit

theorem bind {first : Parser α} {next : α → Parser β} (prompt : Prompt first)
    (continues : ∀ value, Prompt (next value)) : Prompt (first >>= next) :=
  fun token => (prompt token).bind continues

theorem ite {condition : Prop} [Decidable condition] {yes no : Parser α}
    (promptYes : Prompt yes) (promptNo : Prompt no) : Prompt (if condition then yes else no) :=
  fun token => (promptYes token).ite (promptNo token)

theorem peek_bind {next : Token → Parser β} (continues : ∀ token, PromptAt token (next token)) :
    Prompt (peek >>= next) :=
  fun token => (continues token).peek_bind

theorem advance_bind {next : Token → Parser β} (continues : ∀ token, PromptAfter token (next token)) :
    Prompt (advance >>= next) := by
  intro token
  have after := continues token
  generalize isNext : next token = routine at after
  cases after with
  | fail error => exact .advance_bind_fail isNext
  | prompt prompt =>
      by_cases isEnd : token.kind = .eof
      · exact .advance_bind_of_eof isEnd (isNext ▸ prompt token)
      · exact .advance_bind_of_ne isEnd (isNext ▸ prompt)

theorem advance : Prompt advance := by
  have same : (Parser.advance >>= fun token => Pure.pure token) = Parser.advance := bind_pure _
  rw [← same]
  exact .advance_bind fun token => .prompt (.pure token)

theorem take (kind : Token.Kind) : Prompt (take kind) :=
  .peek_bind fun token => .ite ((advance token).bind fun _ => .pure true) (.pure false)

theorem consume (kind : Token.Kind) : Prompt (consume kind) :=
  .peek_bind fun token => .ite (advance token) (.fail _)

/-- The end of the input is not passed, so that errors can still be reported there. -/
theorem consume_eof_bind {next : Token → Parser β}
    (continues : ∀ token, PromptAt token (next token)) : Prompt (Parser.consume .eof >>= next) := by
  intro token
  by_cases isEnd : token.kind = .eof
  · refine (continues token).congr fun rest depth => ?_
    exact bind_of_ok (@consume_eof ⟨token :: rest, depth⟩ isEnd) next
  · refine (PromptAt.fail (.unexpected token.kind .eof)).congr fun rest depth => ?_
    rw [Parser.consume, bind_assoc, bind_of_ok peek_cons, if_neg isEnd]
    rfl

theorem ident : Prompt ident :=
  (consume _).bind fun _ => .pure _

theorem atEnd (closing : Token.Kind) : Prompt (atEnd closing) :=
  .peek_bind fun _ => .pure _

theorem isWord (word : String) : Prompt (isWord word) :=
  .peek_bind fun _ => .pure _

theorem takeWord (word : String) : Prompt (takeWord word) :=
  (isWord word).bind fun _ => .ite (advance.bind fun _ => .pure true) (.pure false)

theorem descend (limit : Nat) : Prompt (descend limit) :=
  fun _ => .descend limit

theorem nested {routine : Parser α} (prompt : Prompt routine) (limit : Nat) :
    Prompt (nested limit routine) :=
  fun token => (prompt token).nested limit

theorem levelled {routine : Parser α} (prompt : Prompt routine) : Prompt (levelled routine) :=
  fun token rest depth ended => (prompt token rest depth ended).levelled

theorem below {inner : Nat → Parser α} {levels : Nat}
    (prompt : ∀ level < levels, Prompt (inner level)) (limit : Nat) :
    Prompt (below limit inner levels) := by
  cases levels with
  | zero => exact .tooDeep limit
  | succ level => exact (prompt level (Nat.lt_succ_self level)).nested limit

end Prompt

/-! Repetition. -/

section

variable {step : α → Parser (ForInStep α)} (progressive : Progressive step)
  (prompt : ∀ value, Prompt (step value))

include progressive prompt

theorem decided_iterate (value : α) (token : Token) (rest : List Token) (depth : Nat)
    (ended : Ended (token :: rest)) : Decided (iterate step value) depth (token :: rest) := by
  -- Every round but the last passes a token, which is why the tokens that are left get fewer.
  have unrolls : iterate step value = unrolled step (iterate step) value :=
    funext (progressive.iterate_eq value)
  rw [unrolls]
  refine (prompt value token rest depth ended).bind ended
    fun result after next others started endedRest => ?_
  cases result with
  | done result => exact Prompt.pure result next others after endedRest
  | yield following =>
      have shorter : others.length < rest.length :=
        Nat.lt_of_succ_lt_succ (progressive.length_lt started)
      exact decided_iterate following next others after endedRest
termination_by rest.length

theorem Prompt.iterate (value : α) : Prompt (iterate step value) :=
  decided_iterate progressive prompt value

end

namespace Prompt

variable {item : Parser α}

theorem many (prompt : Prompt item) (passes : Reads item fun passed _ => passed ≠ [])
    (closing : Token.Kind) : Prompt (many closing item) := by
  refine (iterate (progressive_manyRound passes) (fun items => ?_) []).bind fun _ => .pure _
  exact (atEnd closing).bind fun _ => .ite (.pure _) (prompt.bind fun _ => .pure _)

variable (prompt : Prompt item) (reads : Reads item fun _ _ => True)

include prompt reads

theorem commaList (closing : Token.Kind) : Prompt (commaList closing item) := by
  refine (iterate (progressive_commaRound reads) (fun list => ?_) _).bind fun _ => .pure _
  refine (atEnd closing).bind fun _ => .ite (.pure _) (prompt.bind fun value => ?_)
  exact (take _).bind fun _ => .ite (.pure _) (.pure _)

theorem closedList (closing : Symbol) : Prompt (closedList closing item) :=
  (commaList prompt reads _).bind fun _ => (consume _).bind fun _ => .pure _

end Prompt

end Covenant.Parser
