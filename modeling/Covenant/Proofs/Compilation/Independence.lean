import Covenant.Proofs.Program.Balance
import Covenant.Proofs.Program.Coupling
import Covenant.Proofs.Program.Reading
import Covenant.Proofs.Rules.Relocation
import Covenant.Proofs.Token.Lines
import Mathlib

/-! Contracts are compiled independently of each other: the output for two sources with a line feed
between them is the output for the one followed by the output for the other. -/

namespace Covenant

namespace Parser

/-- Before the last token, where the input ends, nothing else is left to be read. -/
theorem next_of_left {runs : Comparison} {last : Token} (tail : runs.tail = [last])
    (ends : last.kind = .eof) {state other later : State} (aligned : runs.Aligned state other)
    (precedes : state.Precedes later) (left : runs.Left later) : later.next.kind = .eof := by
  obtain ⟨front, otherFront, depth, rfl, rfl, alike⟩ := aligned
  obtain ⟨passed, split, _⟩ := precedes
  rw [Comparison.Left, tail] at left
  rw [tail] at split
  cases shape : later.rest with
  | nil => simp [State.next, shape, Token.endOfInput]
  | cons token rest =>
      cases rest with
      | nil =>
          rw [shape] at split
          obtain rfl := List.singleton_inj.1 (List.append_inj' split rfl).2
          simpa [State.next, shape] using ends
      | cons second rest => simp [shape] at left

/-- A contract is over at its closing brace, whatever comes after it. -/
theorem contract_of_aligned {runs : Comparison} {last : Token} (tail : runs.tail = [last])
    (ends : last.kind = .eof) {state other after : State} {value : Contract}
    (aligned : runs.Aligned state other) (succeeds : contract runs.limit state = .ok value after) :
    ∃ otherAfter, contract runs.otherLimit other = .ok (value.relocate runs.move) otherAfter ∧
      runs.Aligned after otherAfter := by
  have opens := (@advancing_openContract runs).toCoupled
  rw [contract_eq] at succeeds ⊢
  obtain ⟨opened, between, read, closed⟩ := bind_eq_ok_iff.1 succeeds
  obtain ⟨brace, behind, consumed, returned⟩ := bind_eq_ok_iff.1 closed
  cases returned
  have isBrace := kind_of_consume consumed
  have outcome := opens.outcome aligned
  rw [read] at outcome
  -- A run that has left the shared tokens sees the end of the input, but here it sees a brace.
  have going : ¬runs.Left between := by
    intro left
    rw [next_of_left tail ends aligned (opens.forward.of_ok read) left] at isBrace
    cases isBrace
  obtain ⟨otherBetween, otherRead, alignedBetween⟩ := outcome.of_ok.resolve_left going
  obtain ⟨token, rest, otherToken, otherRest, depth, rfl, rfl, alike, alignedRest⟩ :=
    alignedBetween.cases.resolve_left going
  have isBrace : token.kind = .symbol .rbrace := isBrace
  rw [consume_cons isBrace (by simp)] at consumed
  cases consumed
  refine ⟨_, ?_, alignedRest⟩
  rw [bind_of_ok otherRead, bind_of_ok (consume_cons (alike.kind.trans isBrace) (by simp))]
  rfl

/-- The contracts of a source are read in the same way if other tokens stand in place of its end,
and reading goes on from there. -/
theorem contracts_of_aligned {limit : Nat} {last : Token} (ends : last.kind = .eof)
    {more front otherFront : List Token} (going : ∀ token ∈ front, token.kind ≠ .eof)
    (alike : List.Forall₂ (Token.Alike id) front otherFront)
    {before result : List Contract} {after : State}
    (succeeds : iterate (manyRound .eof (contract limit)) before ⟨front ++ [last], 0⟩ =
      .ok result after) :
    ∃ contracts, result = contracts ++ before ∧
      ∀ others, iterate (manyRound .eof (contract limit)) others ⟨otherFront ++ more, 0⟩ =
        iterate (manyRound .eof (contract limit)) (contracts.map (Contract.relocate id) ++ others)
          ⟨more, 0⟩ := by
  have progressive := @progressive_manyRound _ .eof _ (passes_contract limit)
  cases alike with
  | nil =>
      have done : manyRound .eof (contract limit) before ⟨[last], 0⟩ =
          .ok (.done before) ⟨[last], 0⟩ := by
        rw [manyRound, bind_of_ok (atEnd_cons .eof), decide_eq_true ends]
        rfl
      rw [List.nil_append, progressive.iterate_of_done done] at succeeds
      cases succeeds
      exact ⟨[], rfl, fun others => rfl⟩
  | @cons token otherToken front otherFront first rest =>
      have starts : token.kind ≠ .eof := going token (by simp)
      rw [progressive.iterate_eq] at succeeds
      obtain ⟨round, between, stepped, remaining⟩ := bind_eq_ok_iff.1 succeeds
      rw [List.cons_append, manyRound_of_ne starts starts] at stepped
      obtain ⟨value, behind, read, returned⟩ := bind_eq_ok_iff.1 stepped
      cases returned
      -- The first contract is read alike in front of the other tokens. It closes its levels, so the
      -- contracts behind it start with no level open again.
      obtain ⟨otherBehind, otherRead, alignedBehind⟩ :=
        @contract_of_aligned ⟨id, [last], more, limit, 0⟩ last rfl ends _ _ _ _
          ⟨token :: front, otherToken :: otherFront, 0, rfl, rfl, .cons first rest⟩ read
      obtain ⟨back, otherBack, depth, rfl, rfl, alikeBack⟩ := alignedBehind
      obtain rfl : depth = 0 := balanced_contract limit read
      obtain ⟨passed, split, _, nonempty⟩ := passes_contract limit read
      have split : token :: front = passed ++ back := by
        rw [← List.append_assoc] at split
        exact (List.append_inj' split rfl).1
      have shorter : back.length < (token :: front).length := by
        have := List.length_pos_iff.2 nonempty
        rw [split, List.length_append]
        omega
      have goingBack : ∀ token ∈ back, token.kind ≠ .eof := by
        intro other member
        exact going other (by rw [split]; exact List.mem_append_right passed member)
      obtain ⟨contracts, rfl, continues⟩ := contracts_of_aligned ends goingBack alikeBack remaining
      refine ⟨contracts ++ [value], by simp, fun others => ?_⟩
      have otherStep : manyRound .eof (contract limit) others
          ⟨otherToken :: otherFront ++ more, 0⟩ =
            .ok (.yield (value.relocate id :: others)) ⟨otherBack ++ more, 0⟩ := by
        rw [List.cons_append, manyRound_of_ne (first.kind ▸ starts) (first.kind ▸ starts)]
        exact bind_of_ok otherRead _
      rw [progressive.iterate_of_yield otherStep, continues]
      simp
termination_by front.length

/-- Contracts at other places are the same contracts, whichever others have been read before. -/
theorem contracts_of_alike {limit : Nat} {move : Position → Position} {front others : List Token}
    {last : Token} (ends : last.kind = .eof)
    (alike : List.Forall₂ (Token.Alike move) (front ++ [last]) others)
    {result : List Contract} {after : State}
    (succeeds : iterate (manyRound .eof (contract limit)) [] ⟨front ++ [last], 0⟩ =
      .ok result after) (before : List Contract) :
    ∃ otherAfter, iterate (manyRound .eof (contract limit)) before ⟨others, 0⟩ =
      .ok (result.map (Contract.relocate move) ++ before) otherAfter ∧
        otherAfter.next.kind = after.next.kind := by
  have round (contracts : List Contract) :
      Coupled ⟨move, [], [], limit, 0⟩
        (mapStep fun contracts => contracts.map (Contract.relocate move) ++ before)
        (manyRound .eof (contract limit) contracts)
        (manyRound .eof (contract limit) (contracts.map (Contract.relocate move) ++ before)) :=
    (Coupled.atEnd _).bind fun _ => .ite (fun _ => .pure rfl) fun _ =>
      advancing_contract.toCoupled.bind fun _ => .pure rfl
  have coupled := Coupled.iterate round (progressive_manyRound (passes_contract limit)) []
  have outcome := coupled.outcome
    ⟨front ++ [last], others, 0, by rw [List.append_nil], by rw [List.append_nil], alike⟩
  rw [succeeds] at outcome
  -- The loop stops in front of the last token.
  have going : ¬Comparison.Left ⟨move, [], [], limit, 0⟩ after := by
    intro left
    obtain ⟨passed, split, passing⟩ := coupled.forward.of_ok succeeds
    have empty := List.length_eq_zero_iff.1 (Nat.le_zero.1 left)
    rw [empty, List.append_nil] at split
    exact passing last (by simp [← split]) ends
  obtain ⟨otherAfter, otherSucceeds, aligned⟩ := outcome.of_ok.resolve_left going
  obtain ⟨token, rest, otherToken, otherRest, depth, rfl, rfl, alike, _⟩ :=
    aligned.cases.resolve_left going
  exact ⟨_, otherSucceeds, alike.kind⟩

end Parser

theorem Token.forall₂_alike_shift (bytes lines : Nat) (tokens : List Token) :
    List.Forall₂ (Token.Alike (Position.shift lines)) tokens (tokens.map (shift bytes lines)) := by
  rw [List.forall₂_map_right_iff, List.forall₂_same]
  exact fun token _ => ⟨rfl, fun _ => rfl, rfl⟩

theorem Program.parse_line {limits : Limits} {first second : String} {program other : Program}
    (parsed : parse limits first = .ok program) (otherParsed : parse limits second = .ok other)
    (short : (first ++ "\n" ++ second).utf8ByteSize ≤ limits.sourceBytes) :
    ∃ move, parse limits (first ++ "\n" ++ second) =
      .ok ⟨(program.relocate id).contracts ++ (other.relocate move).contracts⟩ := by
  obtain ⟨_, tokens, lexed, after, ran⟩ := Parser.runSource_eq_ok_iff.1 parsed
  obtain ⟨_, otherTokens, otherLexed, otherAfter, otherRan⟩ :=
    Parser.runSource_eq_ok_iff.1 otherParsed
  obtain ⟨contracts, read, _, nonempty, rfl⟩ := Parser.program_eq_ok_iff.1 ran
  obtain ⟨others, otherRead, ended, _, rfl⟩ := Parser.program_eq_ok_iff.1 otherRan
  obtain ⟨front, last, rfl, going⟩ := Token.lex_eq_ok lexed
  obtain ⟨otherFront, otherLast, rfl, _⟩ := Token.lex_eq_ok otherLexed
  obtain ⟨end_, ends⟩ : ∃ end_, Cursor.start.after first.toList = end_ := ⟨_, rfl⟩
  have bothLexed := Token.lex_line ends lexed second
  rw [otherLexed, List.dropLast_concat] at bothLexed
  obtain ⟨kept, rfl, continues⟩ := Parser.contracts_of_aligned rfl going
    (List.forall₂_same.2 fun token _ => ⟨rfl, fun _ => rfl, rfl⟩) read
  obtain ⟨moved, movedRead, movedEnded⟩ := Parser.contracts_of_alike rfl
    (Token.forall₂_alike_shift (end_.offset + 1) end_.pos.line _) otherRead
    (kept.map (Contract.relocate id) ++ [])
  refine ⟨Position.shift end_.pos.line, ?_⟩
  refine Parser.runSource_eq_ok_iff.2 ⟨short, _, bothLexed, moved, ?_⟩
  refine Parser.program_eq_ok_iff.2 ⟨_, (continues []).trans movedRead, movedEnded.trans ended, ?_⟩
  simpa [relocate] using fun _ => nonempty

theorem Program.check_append {program other : Program} (checked : program.check = .ok ())
    (otherChecked : other.check = .ok ()) :
    check ⟨program.contracts ++ other.contracts⟩ = .ok () := by
  rw [check, List.forM_eq_forM] at checked otherChecked ⊢
  rw [List.forM_append, checked, otherChecked]
  rfl

theorem Program.generateWith_append {program other : Program} {select : String → Selector}
    {outputs others : List Compiled} (generated : program.generateWith select = .ok outputs)
    (otherGenerated : other.generateWith select = .ok others) :
    generateWith select ⟨program.contracts ++ other.contracts⟩ = .ok (outputs ++ others) := by
  rw [generateWith] at generated otherGenerated ⊢
  rw [List.mapM_append, generated, otherGenerated]
  rfl

theorem compile_eq_ok_iff {limits : Limits} {source : String} {outputs : List Compiled} :
    compile limits source = .ok outputs ↔
      ∃ program, Program.parse limits source = .ok program ∧ program.check = .ok () ∧
        program.generate = .ok outputs := by
  rw [compile, bind_eq_ok_iff]
  refine exists_congr fun program => and_congr_right fun _ => ?_
  cases program.check with
  | ok => simp [Except.mapError, bind, Except.bind]
  | error error => simp [Except.mapError, bind, Except.bind]

/-- Two sources that compile also compile together, to the outputs of both, one after the other. -/
theorem compile_line {limits : Limits} {first second : String} {outputs others : List Compiled}
    (compiled : compile limits first = .ok outputs)
    (otherCompiled : compile limits second = .ok others)
    (short : (first ++ "\n" ++ second).utf8ByteSize ≤ limits.sourceBytes) :
    compile limits (first ++ "\n" ++ second) = .ok (outputs ++ others) := by
  obtain ⟨program, parsed, checked, generated⟩ := compile_eq_ok_iff.1 compiled
  obtain ⟨other, otherParsed, otherChecked, otherGenerated⟩ := compile_eq_ok_iff.1 otherCompiled
  obtain ⟨move, bothParsed⟩ := Program.parse_line parsed otherParsed short
  refine compile_eq_ok_iff.2 ⟨_, bothParsed, ?_, ?_⟩
  · refine Program.check_append ?_ ?_
    · rw [Program.check_relocate, checked]
      rfl
    · rw [Program.check_relocate, otherChecked]
      rfl
  · refine Program.generateWith_append ?_ ?_
    · rwa [Program.generateWith_relocate]
    · rwa [Program.generateWith_relocate]

def vaultSource : String :=
  "contract Vault { owner: address; def constructor(by: address) { owner = by; } } # once"

def logSource : String :=
  "contract Log { entries: bytes32[]; }"

/-- The code of a contract that has no function to call. -/
def silentRuntime : List UInt8 :=
  [0x60, 0x80, 0x60, 0x40, 0x52, 0x36, 0x15, 0x61, 0x00, 0x16, 0x57, 0x60, 0x00, 0x35, 0x60, 0xE0,
    0x1C, 0x5B, 0x60, 0x00, 0x80, 0xFD, 0x5B, 0x00]

def silentCreation : List UInt8 :=
  [0x61, 0x00, 0x18, 0x60, 0x0E, 0x60, 0x00, 0x39, 0x61, 0x00, 0x18, 0x60, 0x00, 0xF3] ++
    silentRuntime

def vaultOutput : Compiled :=
  ⟨"Vault", [⟨"", .constructor, .nonpayable, [⟨"by", "address"⟩], []⟩], silentCreation,
    silentRuntime⟩

def logOutput : Compiled :=
  ⟨"Log", [], silentCreation, silentRuntime⟩

theorem compile_vault_log :
    compile ⟨128, 8⟩ vaultSource = .ok [vaultOutput] ∧
      compile ⟨128, 8⟩ logSource = .ok [logOutput] ∧
      (vaultSource ++ "\n" ++ logSource).utf8ByteSize ≤ 128 ∧
      compile ⟨128, 8⟩ (vaultSource ++ "\n" ++ logSource) = .ok [vaultOutput, logOutput] := by
  have vault : compile ⟨128, 8⟩ vaultSource = .ok [vaultOutput] := by cbv
  have log : compile ⟨128, 8⟩ logSource = .ok [logOutput] := by cbv
  have short : (vaultSource ++ "\n" ++ logSource).utf8ByteSize ≤ 128 := by decide +kernel
  exact ⟨vault, log, short, compile_line vault log short⟩

end Covenant
