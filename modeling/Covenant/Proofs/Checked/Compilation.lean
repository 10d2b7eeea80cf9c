import Covenant.Proofs.Checked.Generation
import Covenant.Proofs.Checked.Lexing
import Covenant.Proofs.Checked.Parsing
import Covenant.Proofs.Compilation.Independence
import Covenant.Proofs.Program.Parsing
import Mathlib

/-! Compiling with checks never panics and gives the same outcome. A source gives at most six bytes of
code for each of its tokens, so the sizes of the code stay far from the end of 64 bits. -/

namespace Covenant

/-! Six bytes of code for each token. -/

theorem Token.length_of_lexFrom {tokens result : List Token} {cursor : Cursor} {skip : Nat}
    {text : List Char} (lexed : lexFrom tokens cursor skip text = .ok result) :
    result.length ≤ tokens.length + text.length + 1 := by
  fun_induction lexFrom tokens cursor skip text with
  | case1 tokens cursor =>
      cases lexed
      simp
  | case2 tokens cursor skip c rest induction =>
      have fewer := induction lexed
      rw [List.length_cons]
      omega
  | case3 => cases lexed
  | case4 tokens cursor c rest lexeme scanned after induction =>
      have fewer := induction lexed
      have one := Option.length_toList_le (o := lexeme.token? cursor after)
      rw [List.length_append] at fewer
      rw [List.length_cons]
      omega

theorem Separated.length_le {α : Type} {Item : List Token → α → Prop} {tokens : List Token}
    {values : List α} (separated : Separated Item tokens values)
    (nonempty : ∀ {tokens : List Token} {value : α}, Item tokens value → 1 ≤ tokens.length) :
    values.length ≤ tokens.length := by
  induction separated with
  | nil => exact Nat.le_refl _
  | last item => exact nonempty item
  | cons item _ _ induction =>
      rw [List.length_append, List.length_cons, List.length_cons]
      omega

theorem Parameter.Derives.one_le_length {tokens : List Token} {parameter : Parameter}
    (derives : Parameter.Derives tokens parameter) : 1 ≤ tokens.length := by
  cases derives with
  | required typed =>
      cases typed
      simp
  | optional typed _ _ =>
      cases typed
      simp

theorem Function.Derives.codeSize_le {tokens : List Token} {function : Function}
    (derives : Function.Derives tokens function) : function.codeSize ≤ 6 * tokens.length := by
  have size := function.codeSize_le
  cases derives with
  | @mk _ _ _ _ inner words result block parameters modifiers returns body _ _ _ given _ _ _ braces =>
      have few := given.length_le Parameter.Derives.one_le_length
      -- The four tokens up to the parameters' end and the two braces pay for all but the loads.
      have two : 2 ≤ block.length := by
        cases braces
        simp
      simp only [List.length_cons, List.length_append]
      dsimp only at size
      omega

theorem Members.codeSize_le {tokens : List Token} {vars : List StateVar}
    {functions : List Function} {structs : List Struct}
    (members : Members tokens vars functions structs) :
    (functions.map Function.codeSize).sum ≤ 6 * tokens.length := by
  induction members with
  | nil => exact Nat.le_refl _
  | stateVar | struct =>
      rw [List.length_append]
      omega
  | function derives _ induction =>
      have first := derives.codeSize_le
      rw [List.length_append, List.map_cons, List.sum_cons]
      omega

theorem Contract.Derives.codeSize_le {tokens : List Token} {contract : Contract}
    (derives : Contract.Derives tokens contract) : contract.codeSize ≤ 6 * tokens.length := by
  cases derives with
  | @mk _ _ _ _ tokens vars functions structs _ _ _ members _ =>
      have all := members.codeSize_le
      have part : ((functions.filter fun function => !function.isConstructor).map
          Function.codeSize).sum ≤ (functions.map Function.codeSize).sum :=
        (List.filter_sublist.map _).sum_le_sum fun _ _ => Nat.zero_le _
      change 24 + ((functions.filter fun function => !function.isConstructor).map
        Function.codeSize).sum ≤ _
      simp only [List.length_cons, List.length_append, List.length_nil]
      omega

theorem Program.Derives.codeSize_le {tokens : List Token} {program : Program}
    (derives : Program.Derives tokens program) :
    ∀ contract ∈ program.contracts, contract.codeSize ≤ 6 * tokens.length := by
  cases derives with
  | mk contracts nonempty =>
      -- The contracts behind the first may be none at all.
      clear nonempty
      dsimp only
      induction contracts with
      | nil => simp
      | cons derives _ induction =>
          rw [List.forall_mem_cons, List.length_append]
          constructor
          · have first := derives.codeSize_le
            omega
          · intro contract member
            have later := induction contract member
            omega

theorem Program.codeSize_le_of_parse {limits : Limits} {source : String} {program : Program}
    (parsed : parse limits source = .ok program) :
    ∀ contract ∈ program.contracts, contract.codeSize ≤ 6 * source.utf8ByteSize := by
  intro contract member
  obtain ⟨_, stream, lexed, after, ran⟩ := Parser.runSource_eq_ok_iff.1 parsed
  obtain ⟨tokens, last, rfl, going⟩ := Token.lex_eq_ok lexed
  have size := (Parser.derives_of_program going rfl ran).codeSize_le contract member
  have few := Token.length_of_lexFrom lexed
  have short := length_le_utf8Len source.toList
  rw [String.utf8Len_toList] at short
  rw [List.length_append, List.length_singleton, List.length_nil] at few
  omega

namespace Checked

def parse (limits : Limits) (source : String) (buffer : List Token) :
    Checked (Except CompileError Program) := do
  require (buffer = []) .dirtyBuffer
  if limits.sourceBytes < source.utf8ByteSize then
    return .error (.resource (.sourceTooLarge source.utf8ByteSize limits.sourceBytes))
  else
    match ← lex source buffer with
    | .error error => return .error (.lex error)
    | .ok tokens =>
        match ← Routine.program source limits.depth ⟨tokens, 0⟩ with
        | .error error _ => return .error error
        | .ok program _ => return .ok program

/-- Nothing can go wrong while the rules are checked, so this is done as always. -/
def compile (limits : Limits) (source : String) : Checked (Except CompileError (List Compiled)) := do
  match ← parse limits source [] with
  | .error error => return .error error
  | .ok program =>
      match program.check with
      | .error error => return .error (.semantic error)
      | .ok () => generate Selector.ofSignature program

theorem parse_eq (limits : Limits) {source : String}
    (fits : source.utf8ByteSize ≤ maxSourceBytes) :
    parse limits source [] = .ok (Program.parse limits source) := by
  rw [parse, require_of rfl, ok_bind, Program.parse, Parser.runSource, Parser.tokens]
  by_cases long : limits.sourceBytes < source.utf8ByteSize
  · rw [if_pos long, if_pos long]
    rfl
  · rw [if_neg long, if_neg long, lex_eq fits, ok_bind]
    cases lexed : Token.lex source with
    | error error => rfl
    | ok tokens =>
        have same := (agrees_program limits.depth ⟨tokens, 0⟩ (faithful_of_lex fits lexed)).1
        dsimp only
        rw [same, ok_bind]
        change _ = Except.ok (Parser.run (Parser.program limits.depth) tokens)
        rw [Parser.run]
        cases Parser.program limits.depth ⟨tokens, 0⟩ <;> rfl

/-- A source of at most 4294967294 bytes is compiled without a panic, whatever the limits. -/
theorem compile_never_panics (limits : Limits) {source : String}
    (fits : source.utf8ByteSize ≤ 4294967294) :
    compile limits source = .ok (Covenant.compile limits source) := by
  rw [compile, parse_eq limits fits, ok_bind, Covenant.compile]
  cases parsed : Program.parse limits source with
  | error error => rfl
  | ok program =>
      change _ = Except.ok (program.check.mapError .semantic >>= fun _ => program.generate)
      dsimp only
      cases program.check with
      | error error => rfl
      | ok =>
          apply generate_eq
          intro contract member
          have size := program.codeSize_le_of_parse parsed contract member
          rw [Span.maxOffset]
          omega

/-- A source whose only string has characters of two and four bytes, one of value zero, and escapes. -/
def mottoSource : String :=
  "contract Motto \x7b def say(text: string = \"né\x00 \\\"𝄞\\\"\\n\") view -> uint256 " ++
    "\x7b return m[1].n(2) \x7d \x7d # é"

def motto : Contract :=
  ⟨⟨"Motto", ⟨1, 10⟩⟩, [],
    [⟨⟨"say", ⟨1, 22⟩⟩,
      [⟨⟨"text", ⟨1, 26⟩⟩, .named "string",
        some (.literal ⟨1, 41⟩ (.string "né\x00 \"𝄞\"\n"))⟩],
      some (.single "uint256"), Modifiers.none.add .view,
      [.return_ ⟨1, 74⟩ (some (.call ⟨1, 81⟩ (.member ⟨1, 81⟩
        (.index ⟨1, 81⟩ (.ident ⟨1, 81⟩ "m") (.literal ⟨1, 83⟩ (.number "1"))) "n")
        [.literal ⟨1, 88⟩ (.number "2")]))]⟩], []⟩

theorem motto_never_panics :
    (∃ compiled, compile ⟨102, 5⟩ mottoSource = .ok (.ok [compiled]) ∧
      compiled.runtime.length = 62) ∧
    compile ⟨102, 4⟩ mottoSource = .ok (.error (.resource (.nestingTooDeep 4))) := by
  have fits : mottoSource.utf8ByteSize ≤ 4294967294 := by decide +kernel
  have parsed : Program.parse ⟨102, 5⟩ mottoSource = .ok ⟨[motto]⟩ := by cbv
  have tooDeep : Program.parse ⟨102, 4⟩ mottoSource = .error (.resource (.nestingTooDeep 4)) := by
    cbv
  have size : motto.codeSize = 62 := by decide +kernel
  have small : motto.codeSize ≤ Evm.maxJumpTarget := by decide +kernel
  obtain ⟨compiled, generated, length, -⟩ :=
    Contract.generateWith_of_le Selector.ofSignature small
  have checked : Program.check ⟨[motto]⟩ = .ok () := by rfl
  rw [compile_never_panics ⟨102, 5⟩ fits, compile_never_panics ⟨102, 4⟩ fits]
  constructor
  · have outputs : Program.generate ⟨[motto]⟩ = .ok [compiled] :=
      mapM_eq_ok_iff.2 (.cons generated .nil)
    rw [compile_eq_ok_iff.2 ⟨_, parsed, checked, outputs⟩]
    exact ⟨compiled, rfl, length.trans size⟩
  · rw [Covenant.compile, tooDeep]
    rfl

end Checked

end Covenant
