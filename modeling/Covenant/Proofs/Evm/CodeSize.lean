import Covenant.Compilation
import Covenant.Proofs.Evm.DispatcherImage
import Mathlib

/-! The size of a contract's code, counted from its functions. Code is generated for a program if and
only if the code of each contract fits two bytes, wherever the excess is noticed. -/

namespace Covenant

/-- How many bytes the offset of an argument takes when it is pushed. -/
def offsetWidth (index : Nat) : Nat :=
  max 1 (min 4 (Nat.digits 256 (4 + 32 * index)).length)

/-- A comparison with its jump target, then the guard, the arguments and the end of the stub. -/
def Function.codeSize (function : Function) : Nat :=
  12 + (if function.modifiers.payable then 0 else 13) +
    (if function.returns.isSome then 10 else 1) +
    ((List.range function.parameters.length).map fun index => 2 + offsetWidth index).sum

def Contract.codeSize (contract : Contract) : Nat :=
  24 + (contract.callable.map Function.codeSize).sum

theorem Function.parameters_le_codeSize (function : Function) :
    function.parameters.length ≤ function.codeSize := by
  have counted := List.length_le_sum_of_one_le
    ((List.range function.parameters.length).map fun index => 2 + offsetWidth index) (by simp; omega)
  rw [List.length_map, List.length_range] at counted
  rw [codeSize]
  omega

theorem Function.codeSize_le (function : Function) :
    function.codeSize ≤ 35 + 6 * function.parameters.length := by
  have each : ∀ size ∈ (List.range function.parameters.length).map fun index =>
      2 + offsetWidth index, size ≤ 6 := by
    rw [List.forall_mem_map]
    intro index _
    rw [offsetWidth]
    omega
  have total := List.sum_le_card_nsmul _ _ each
  rw [List.length_map, List.length_range, smul_eq_mul] at total
  rw [codeSize]
  split <;> split <;> omega

theorem Contract.parameters_le_codeSize (contract : Contract) {function : Function}
    (member : function ∈ contract.callable) :
    function.parameters.length ≤ contract.codeSize := by
  have part := List.le_sum_of_mem (List.mem_map_of_mem (f := Function.codeSize) member)
  have own := function.parameters_le_codeSize
  rw [codeSize]
  omega

theorem Contract.callable_le_codeSize (contract : Contract) :
    24 + 12 * contract.callable.length ≤ contract.codeSize := by
  have each : ∀ size ∈ contract.callable.map Function.codeSize, 12 ≤ size := by
    rw [List.forall_mem_map]
    intro function member
    rw [Function.codeSize]
    omega
  have total := List.card_nsmul_le_sum _ _ each
  rw [List.length_map, smul_eq_mul] at total
  rw [codeSize]
  omega

namespace Evm

theorem codeSize_flatMap {α : Type} (items : List α) (piece : α → List Instr) :
    codeSize (items.flatMap piece) = (items.map fun item => codeSize (piece item)).sum := by
  induction items with
  | nil => rfl
  | cons item items induction =>
      rw [List.flatMap_cons, codeSize_append, induction, List.map_cons, List.sum_cons]

namespace Dispatcher

theorem toNat_argumentOffset (index : Nat) :
    (argumentOffset index).toNat = min (4 + 32 * index) 0xFFFFFFFF := by
  rw [argumentOffset, UInt32.toNat_ofNat']
  omega

theorem immediateLen_argumentOffset (index : Nat) :
    (Opcode.narrowestPush (argumentOffset index)).immediateLen = offsetWidth index := by
  have fits (width : Nat) : (Nat.digits 256 (4 + 32 * index)).length ≤ width ↔
      4 + 32 * index < 256 ^ width :=
    Nat.digits_length_le_iff (by decide) _
  have one := fits 1
  have two := fits 2
  have three := fits 3
  rw [Opcode.narrowestPush, toNat_argumentOffset, offsetWidth]
  split
  · simp only [Opcode.immediateLen]
    omega
  · split
    · simp only [Opcode.immediateLen]
      omega
    · split
      · simp only [Opcode.immediateLen]
        omega
      · simp only [Opcode.immediateLen]
        omega

theorem codeSize_loads (parameters : Nat) :
    codeSize (loads parameters) =
      ((List.range parameters).map fun index => 2 + offsetWidth index).sum := by
  rw [loads, codeSize_flatMap]
  congr 2
  funext index
  rw [codeSize_cons, codeSize_cons, codeSize_nil, Instr.size, Instr.size,
    immediateLen_argumentOffset, show Opcode.calldataload.immediateLen = 0 from rfl]
  omega

theorem codeSize_comparison (selector : Selector) (index : Nat) :
    codeSize (comparison selector index) = 11 := rfl

/-- A stub and its comparison take up the bytes of the function. -/
theorem codeSize_stub (count : Nat) (function : Function) (index : Nat) :
    11 + codeSize (stub count function index) = function.codeSize := by
  have guarded : codeSize (valueGuard count index) = 13 := rfl
  have finished : codeSize (finish function.returns.isSome) =
      if function.returns.isSome then 10 else 1 := by
    cases function.returns.isSome <;> rfl
  rw [stub, codeSize_append, codeSize_append, codeSize_cons, codeSize_loads, finished,
    Function.codeSize, Instr.size]
  cases function.modifiers.payable with
  | true =>
      simp only [if_true, codeSize_nil]
      omega
  | false =>
      simp only [Bool.false_eq_true, if_false, guarded]
      omega

theorem codeSize_comparisons_stubs (select : String → Selector) (count start : Nat)
    (functions : List Function) :
    codeSize (comparisons select start functions) + codeSize (stubs count start functions) =
      (functions.map Function.codeSize).sum := by
  induction functions generalizing start with
  | nil => rfl
  | cons function functions induction =>
      rw [comparisons_cons, stubs_cons, codeSize_append, codeSize_append, codeSize_comparison,
        List.map_cons, List.sum_cons, ← induction (start + 1), ← codeSize_stub count function start]
      omega

theorem codeSize_instrs (select : String → Selector) (functions : List Function) :
    codeSize (instrs select functions) = 24 + (functions.map Function.codeSize).sum := by
  have opened : codeSize (head functions.length) = 17 := rfl
  have closed : codeSize (fallthrough functions.length) = 7 := rfl
  rw [instrs_eq, codeSize_append, codeSize_append, codeSize_append, opened, closed,
    ← codeSize_comparisons_stubs select functions.length 0]
  omega

end Dispatcher

theorem runtimeCodeWith_cases (select : String → Selector) (contract : Contract) :
    (∃ code, runtimeCodeWith select contract = .ok code ∧ code.length = contract.codeSize) ∨
      maxJumpTarget < contract.codeSize ∧ runtimeCodeWith select contract =
        .error (.resource (.codeTooLarge contract.codeSize maxJumpTarget)) := by
  have cases := (Dispatcher.labelled_assembly select contract.callable).assemble_cases
  rw [Contract.codeSize, ← Dispatcher.codeSize_instrs select]
  exact cases

theorem creationCode_of_le {runtime : List UInt8} (fits : runtime.length ≤ maxJumpTarget) :
    ∃ code, creationCode runtime = .ok code ∧ code.length = 14 + runtime.length := by
  rw [creationCode, if_pos fits]
  exact ⟨_, rfl, List.length_append⟩

theorem creationCode_of_lt {runtime : List UInt8} (exceeds : maxJumpTarget < runtime.length) :
    creationCode runtime = .error (.resource (.codeTooLarge runtime.length maxJumpTarget)) := by
  rw [creationCode, if_neg (Nat.not_le.2 exceeds)]
  rfl

end Evm

namespace Contract

theorem generateWith_of_le (select : String → Selector) {contract : Contract}
    (fits : contract.codeSize ≤ Evm.maxJumpTarget) :
    ∃ compiled, contract.generateWith select = .ok compiled ∧
      compiled.runtime.length = contract.codeSize ∧
      compiled.creation.length = 14 + contract.codeSize := by
  rcases Evm.runtimeCodeWith_cases select contract with ⟨runtime, assembled, length⟩ | ⟨exceeds, _⟩
  · obtain ⟨creation, deployed, creationLength⟩ := Evm.creationCode_of_le (length ▸ fits)
    rw [length] at creationLength
    refine ⟨⟨contract.name.name, Abi.ofContract contract, creation, runtime⟩, ?_, length,
      creationLength⟩
    rw [generateWith, assembled]
    change Evm.creationCode runtime >>= _ = _
    rw [deployed]
    rfl
  · omega

theorem generateWith_of_lt (select : String → Selector) {contract : Contract}
    (exceeds : Evm.maxJumpTarget < contract.codeSize) :
    contract.generateWith select =
      .error (.resource (.codeTooLarge contract.codeSize Evm.maxJumpTarget)) := by
  rcases Evm.runtimeCodeWith_cases select contract with ⟨runtime, assembled, length⟩ | ⟨_, failed⟩
  · rw [← length] at exceeds ⊢
    rw [generateWith, assembled]
    change Evm.creationCode runtime >>= _ = _
    rw [Evm.creationCode_of_lt exceeds]
    rfl
  · rw [generateWith, failed]
    rfl

theorem codeSize_of_generateWith {select : String → Selector} {contract : Contract}
    {compiled : Compiled} (generated : contract.generateWith select = .ok compiled) :
    contract.codeSize ≤ Evm.maxJumpTarget ∧ compiled.runtime.length = contract.codeSize ∧
      compiled.creation.length = 14 + contract.codeSize := by
  rcases Nat.lt_or_ge Evm.maxJumpTarget contract.codeSize with exceeds | fits
  · rw [generateWith_of_lt select exceeds] at generated
    cases generated
  · obtain ⟨other, same, lengths⟩ := generateWith_of_le select fits
    rw [generated] at same
    cases same
    exact ⟨fits, lengths⟩

/-- Nothing but its size stops the generation of code. -/
theorem error_of_generateWith {select : String → Selector} {contract : Contract}
    {error : CompileError} (failed : contract.generateWith select = .error error) :
    error = .resource (.codeTooLarge contract.codeSize Evm.maxJumpTarget) := by
  rcases Nat.lt_or_ge Evm.maxJumpTarget contract.codeSize with exceeds | fits
  · rw [generateWith_of_lt select exceeds] at failed
    exact (Except.error.inj failed).symm
  · obtain ⟨compiled, generated, -⟩ := generateWith_of_le select fits
    rw [generated] at failed
    cases failed

end Contract

/-- Code is generated for a program as long as the code of each contract has at most 65535 bytes, and
has then the size that its functions give it. The first contract that exceeds them is reported with
that size, whether a label that lies too far or the length of the whole code is noticed. -/
theorem Program.generateWith_within_code_limit (select : String → Selector) (program : Program) :
    ((∀ contract ∈ program.contracts, contract.codeSize ≤ 65535) →
      ∃ outputs, program.generateWith select = .ok outputs ∧
        List.Forall₂ (fun contract compiled => compiled.runtime.length = contract.codeSize ∧
          compiled.creation.length = 14 + contract.codeSize) program.contracts outputs) ∧
    ∀ before contract after, program.contracts = before ++ contract :: after →
      (∀ earlier ∈ before, earlier.codeSize ≤ 65535) → 65535 < contract.codeSize →
        program.generateWith select =
          .error (.resource (.codeTooLarge contract.codeSize 65535)) ∧
        (Evm.runtimeCodeWith select contract =
            .error (.resource (.codeTooLarge contract.codeSize 65535)) ∨
          ∃ runtime, Evm.runtimeCodeWith select contract = .ok runtime ∧
            Evm.creationCode runtime =
              .error (.resource (.codeTooLarge contract.codeSize 65535))) := by
  constructor
  · intro fit
    cases generated : program.generateWith select with
    | ok outputs =>
        refine ⟨outputs, rfl, List.Forall₂.imp ?_ (mapM_eq_ok_iff.1 generated)⟩
        intro contract compiled output
        exact (Contract.codeSize_of_generateWith output).2
    | error error =>
        obtain ⟨contract, member, fails⟩ := exists_of_mapM_eq_error generated
        obtain ⟨compiled, output, -⟩ := Contract.generateWith_of_le select (fit contract member)
        rw [output] at fails
        cases fails
  · intro before contract after split fit exceeds
    constructor
    · rw [Program.generateWith, split]
      apply mapM_eq_error_of_first
      · intro earlier member
        obtain ⟨compiled, output, -⟩ := Contract.generateWith_of_le select (fit earlier member)
        exact ⟨compiled, output⟩
      · exact Contract.generateWith_of_lt select exceeds
    · rcases Evm.runtimeCodeWith_cases select contract with ⟨runtime, assembled, length⟩ | ⟨_, failed⟩
      · rw [← length] at exceeds
        have refused := Evm.creationCode_of_lt exceeds
        rw [length] at refused
        exact .inr ⟨runtime, assembled, refused⟩
      · exact .inl failed

/-- A contract with so many functions of one parameter. -/
def crowded (functions : Nat) : Contract :=
  ⟨⟨"Crowded", .start⟩, [], List.replicate functions
    ⟨⟨"join", .start⟩, [⟨⟨"who", .start⟩, .named "address", none⟩], none, .none, []⟩, []⟩

theorem codeSize_crowded (functions : Nat) : (crowded functions).codeSize = 24 + functions * 29 := by
  have one : Function.codeSize
      ⟨⟨"join", .start⟩, [⟨⟨"who", .start⟩, .named "address", none⟩], none, .none, []⟩ = 29 := by
    decide +kernel
  simp [Contract.codeSize, Contract.callable, crowded, Function.isConstructor, one]

/-- With 2259 functions the last byte is used up, and one more is too many. -/
theorem crowded_code_at_limit :
    (∃ compiled, Program.generate ⟨[crowded 2259]⟩ = .ok [compiled] ∧
      compiled.runtime.length = 65535 ∧ compiled.creation.length = 65549) ∧
    Program.generate ⟨[crowded 2259, crowded 2260]⟩ =
      .error (.resource (.codeTooLarge 65564 65535)) := by
  have full := codeSize_crowded 2259
  have overfull := codeSize_crowded 2260
  constructor
  · obtain ⟨outputs, generated, lengths⟩ :=
      (Program.generateWith_within_code_limit Selector.ofSignature ⟨[crowded 2259]⟩).1
        (by simp [full])
    obtain ⟨compiled, others, ⟨runtime, creation⟩, rest, rfl⟩ :=
      List.forall₂_cons_left_iff.1 lengths
    cases rest
    rw [full] at runtime creation
    exact ⟨compiled, generated, runtime, creation⟩
  · have refused :=
      (Program.generateWith_within_code_limit Selector.ofSignature
        ⟨[crowded 2259, crowded 2260]⟩).2 [crowded 2259] (crowded 2260) [] rfl (by simp [full])
        (by simp [overfull])
    rw [overfull] at refused
    exact refused.1

end Covenant
