import Covenant.Proofs.Compilation.Layout
import Covenant.Proofs.Evm.CodeSize
import Covenant.Proofs.Program.Budget

/-! The limit on nesting only turns sources away. A source that is not turned away gets the answer
that it gets under every greater limit, and a limit of at least the number of tokens turns none
away. -/

namespace Covenant

variable {α β : Type}

structure DepthOnlyRejects (run : Limits → String → Except CompileError α) : Prop where
  same_or_tooDeep : ∀ {source : String} {bytes depth more : Nat}, depth ≤ more →
    run ⟨bytes, depth⟩ source = run ⟨bytes, more⟩ source ∨
      run ⟨bytes, depth⟩ source = .error (.resource (.nestingTooDeep depth))
  ne_tooDeep : ∀ {source : String} {bytes depth : Nat},
    (∀ tokens, Token.lex source = .ok tokens → tokens.length ≤ depth) →
    ∀ limit, run ⟨bytes, depth⟩ source ≠ .error (.resource (.nestingTooDeep limit))

theorem DepthOnlyRejects.bind {run : Limits → String → Except CompileError α}
    {next : α → Except CompileError β} (reads : DepthOnlyRejects run)
    (other : ∀ value limit, next value ≠ .error (.resource (.nestingTooDeep limit))) :
    DepthOnlyRejects fun limits source => run limits source >>= next where
  same_or_tooDeep := by
    intro source bytes depth more le
    rcases reads.same_or_tooDeep le with same | tooDeep
    · exact .inl (congrArg (· >>= next) same)
    · exact .inr (congrArg (· >>= next) tooDeep)
  ne_tooDeep := by
    intro source bytes depth enough limit fails
    rcases bind_eq_error_iff.1 fails with first | ⟨value, _, second⟩
    · exact reads.ne_tooDeep enough limit first
    · exact other value limit second

namespace Parser

section

variable {routine : Nat → Parser α} {change : α → α}

theorem run_eq_or_tooDeep (unchanged : ∀ value, change value = value)
    (coupled : ∀ limit extra, Coupled ⟨id, [], [], limit, extra⟩ change (routine limit)
      (routine (limit + extra)))
    {tokens : List Token} (ended : ∃ last ∈ tokens, last.kind = .eof) {depth more : Nat}
    (le : depth ≤ more) :
    run (routine depth) tokens = run (routine more) tokens ∨
      run (routine depth) tokens = .error (.resource (.nestingTooDeep depth)) := by
  obtain ⟨extra, rfl⟩ := Nat.exists_eq_add_of_le le
  have alike : List.Forall₂ (Token.Alike id) tokens tokens :=
    List.forall₂_same.2 fun _ _ => ⟨rfl, fun _ => rfl, rfl⟩
  rcases (coupled depth extra).run_eq rfl rfl ended alike with same | ⟨tooDeep, _⟩
  · refine .inl (Eq.trans ?_ same.symm)
    cases run (routine depth) tokens with
    | ok value => exact congrArg Except.ok (unchanged value).symm
    | error error => exact congrArg Except.error error.relocate_id.symm
  · exact .inr tooDeep

theorem run_ne_tooDeep {depth : Nat}
    (affords : Affords depth depth 1 (fun _ => 0) (routine depth)) {tokens : List Token}
    (ended : ∃ last ∈ tokens, last.kind = .eof) (enough : tokens.length ≤ depth) (limit : Nat) :
    run (routine depth) tokens ≠ .error (.resource (.nestingTooDeep limit)) := by
  have budget : Budget depth depth 1 ⟨tokens, 0⟩ :=
    ⟨ended, Nat.le_add_left _ _, by rw [Nat.zero_add]; exact Nat.succ_le_succ enough⟩
  have afforded := affords budget
  rw [run]
  cases ran : routine depth ⟨tokens, 0⟩ with
  | ok value after => simp
  | error error after =>
      rw [ran] at afforded
      simpa using afforded limit

theorem depthOnlyRejects_runSource (unchanged : ∀ value, change value = value)
    (coupled : ∀ limit extra, Coupled ⟨id, [], [], limit, extra⟩ change (routine limit)
      (routine (limit + extra)))
    (affords : ∀ limit, Affords limit limit 1 (fun _ => 0) (routine limit)) :
    DepthOnlyRejects fun limits => runSource limits (routine limits.depth) where
  same_or_tooDeep := by
    intro source bytes depth more le
    simp only [runSource, tokens]
    split
    · exact .inl rfl
    · cases lexed : Token.lex source with
      | error error => exact .inl rfl
      | ok tokens => exact run_eq_or_tooDeep unchanged coupled (Token.ended_of_lex lexed) le
  ne_tooDeep := by
    intro source bytes depth enough limit
    simp only [runSource, tokens]
    split
    · intro fails
      cases fails
    · cases lexed : Token.lex source with
      | error error =>
          intro fails
          cases fails
      | ok tokens =>
          exact run_ne_tooDeep (affords depth) (Token.ended_of_lex lexed) (enough tokens lexed)
            limit

end

end Parser

/-! What comes after reading does not nest. -/

theorem Program.translate_ne_tooDeep (program : Program) (limit : Nat) :
    program.translate ≠ .error (.resource (.nestingTooDeep limit)) := by
  intro fails
  rcases bind_eq_error_iff.1 fails with checked | ⟨_, _, generated⟩
  · cases isChecked : program.check with
    | ok | error =>
        rw [isChecked] at checked
        cases checked
  · obtain ⟨contract, _, failed⟩ := exists_of_mapM_eq_error generated
    cases Contract.error_of_generateWith failed

/-! Reading programs and expressions, and compiling. -/

theorem Program.depthOnlyRejects_parse : DepthOnlyRejects Program.parse :=
  Parser.depthOnlyRejects_runSource Program.relocate_id
    (fun limit extra => @Parser.coupled_program ⟨id, [], [], limit, extra⟩)
    fun _ => Parser.affords_program

theorem Expr.depthOnlyRejects_parse : DepthOnlyRejects Expr.parse :=
  Parser.depthOnlyRejects_runSource Expr.relocate_id
    (fun limit extra => @Parser.coupled_wholeExpr ⟨id, [], [], limit, extra⟩)
    fun _ => Parser.affords_wholeExpr

/-- A source gets the same answer under all limits on nesting that do not turn it away, and a limit
of at least the number of its tokens does not. -/
theorem depth_only_rejects :
    DepthOnlyRejects compile ∧ DepthOnlyRejects Expr.parse ∧ DepthOnlyRejects Program.parse :=
  ⟨Program.depthOnlyRejects_parse.bind Program.translate_ne_tooDeep,
    Expr.depthOnlyRejects_parse, Program.depthOnlyRejects_parse⟩

end Covenant
