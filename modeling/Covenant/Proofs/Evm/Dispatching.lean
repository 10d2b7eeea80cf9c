import Covenant.Compilation
import Covenant.Evm.Machine
import Covenant.Proofs.Evm.DispatcherImage
import Covenant.Proofs.Evm.Running

/-! What calls to a contract do. The code of a contract answers every call the way the interface
description tells a caller: the first function with the selector of the call takes it. -/

namespace Covenant.Evm

/-- The answer of a function to a call that carries `value`, read off its entry. -/
def answerOf (entry : Abi.Entry) (value : Word) : Outcome :=
  if value ≠ 0 ∧ entry.mutability ≠ .payable then .reverted []
  else if entry.outputs ≠ [] then .returned (List.replicate 32 0)
  else .stopped

/-- The entry of the first function in declaration order that has this selector. A constructor
cannot be called. -/
def calledEntry? (select : String → Selector) (contract : Contract) (abi : List Abi.Entry)
    (selector : Selector) : Option Abi.Entry :=
  ((contract.functions.zip abi).find? fun (function, _) =>
    !function.isConstructor && select function.signature == selector).map Prod.snd

/-- The answer of a contract to a call. The selector is in the first four bytes of the data, which
zeros fill up. -/
def answer (select : String → Selector) (contract : Contract) (abi : List Abi.Entry)
    (data : List UInt8) (value : Word) : Outcome :=
  if data = [] then .stopped
  else
    match calledEntry? select contract abi (Selector.ofBytes (window data 0 4)) with
    | none => .reverted []
    | some entry => answerOf entry value

/-! The selector of a call. -/

theorem toNat_shift_or (word : UInt32) (byte : UInt8) (small : word.toNat < 256 ^ 3) :
    (word <<< 8 ||| byte.toUInt32).toNat = word.toNat * 256 + byte.toNat := by
  have byteBound : byte.toNat < 2 ^ 8 := byte.toNat_lt
  have shifted : (word <<< 8).toNat = word.toNat <<< 8 := by
    rw [UInt32.toNat_shiftLeft]
    apply Nat.mod_eq_of_lt
    change word.toNat <<< 8 < 2 ^ 32
    rw [Nat.shiftLeft_eq]
    omega
  rw [UInt32.toNat_or, shifted, UInt8.toNat_toUInt32, ← Nat.shiftLeft_add_eq_or_of_lt byteBound,
    Nat.shiftLeft_eq]

theorem toNat_foldl_selector (word : UInt32) (bytes : List UInt8) (length : bytes.length ≤ 4)
    (small : word.toNat < 256 ^ (4 - bytes.length)) :
    (bytes.foldl (fun (word : UInt32) byte => (word <<< 8) ||| byte.toUInt32) word).toNat =
      word.toNat * 256 ^ bytes.length + natOfBytes bytes := by
  induction bytes generalizing word with
  | nil => simp [natOfBytes]
  | cons byte bytes induction =>
      rw [List.length_cons] at length small
      have fits : word.toNat < 256 ^ 3 :=
        lt_of_lt_of_le small (Nat.pow_le_pow_right (by decide) (by omega))
      have extended := toNat_shift_or word byte fits
      have byteBound : byte.toNat < 256 := byte.toNat_lt
      have smallNext : (word <<< 8 ||| byte.toUInt32).toNat < 256 ^ (4 - bytes.length) := by
        have exponent : 4 - bytes.length = (4 - (bytes.length + 1)) + 1 := by omega
        rw [extended, exponent, pow_succ]
        omega
      rw [List.foldl_cons, induction _ (by omega) smallNext, extended, natOfBytes_cons,
        List.length_cons, pow_succ]
      ring

theorem toNat_selector (bytes : List UInt8) (length : bytes.length = 4) :
    (Selector.ofBytes bytes).toNat = natOfBytes bytes := by
  have folded := toNat_foldl_selector 0 bytes (by omega) (by simp [length])
  simpa [Selector.ofBytes] using folded

/-- The data of a call that gives a selector and no arguments. -/
def CallData.ofSelector (selector : Selector) : CallData where
  bytes := bigEndian selector.toNat 4
  length_le := by
    rw [length_bigEndian]
    decide

theorem selector_ofSelector (selector : Selector) :
    Selector.ofBytes (window (CallData.ofSelector selector).bytes 0 4) = selector := by
  have bytes : window (CallData.ofSelector selector).bytes 0 4 = bigEndian selector.toNat 4 := by
    have middle := window_middle [] (bigEndian selector.toNat 4) []
    rwa [List.nil_append, List.append_nil, length_bigEndian] at middle
  apply UInt32.toNat_inj.1
  rw [bytes, toNat_selector _ (length_bigEndian _ _), natOfBytes_bigEndian]
  exact Nat.mod_eq_of_lt selector.toNat_lt

/-- Shifting the first word of the data right leaves its first four bytes. -/
theorem shr_selector (data : List UInt8) :
    Word.shr (Word.ofBytes (window data 0 32)) (BitVec.ofNat 256 0xE0) =
      BitVec.ofNat 256 (Selector.ofBytes (window data 0 4)).toNat := by
  have parts := window_append data 0 4 28
  have lowBound := natOfBytes_lt (window data (0 + 4) 28)
  have highBound := natOfBytes_lt (window data 0 4)
  rw [length_window] at lowBound highBound
  apply BitVec.eq_of_toNat_eq
  rw [toNat_selector _ (length_window _ _ _), show (32 : Nat) = 4 + 28 from rfl, parts]
  have shift : (BitVec.ofNat 256 0xE0).toNat = 224 := by decide
  simp only [Word.shr, shift, show 224 < 256 by decide, if_true, BitVec.toNat_ushiftRight,
    toNat_ofBytes, natOfBytes_append, length_window, BitVec.toNat_ofNat, Nat.shiftRight_eq_div_pow]
  omega

/-! Entries and functions. -/

theorem mutability_ne_payable_iff {function : Function}
    (callable : function.isConstructor = false) :
    (Abi.Entry.ofFunction function).mutability ≠ .payable ↔
      function.modifiers.payable = false := by
  unfold Abi.Entry.ofFunction Abi.Mutability.ofModifiers
  simp only [callable]
  cases function.modifiers.payable <;> cases function.modifiers.view <;>
    cases function.modifiers.pure <;> simp

theorem outputs_ne_nil_iff {function : Function} (callable : function.isConstructor = false) :
    (Abi.Entry.ofFunction function).outputs ≠ [] ↔ function.returns.isSome = true := by
  unfold Abi.Entry.ofFunction
  simp only [callable]
  cases function.returns <;> simp

theorem calledEntry?_ofContract (select : String → Selector) (contract : Contract)
    (selector : Selector) :
    calledEntry? select contract (Abi.ofContract contract) selector =
      (contract.callable.find? fun function => select function.signature == selector).map
        Abi.Entry.ofFunction := by
  unfold calledEntry? Abi.ofContract Contract.callable
  have paired : contract.functions.zip (contract.functions.map Abi.Entry.ofFunction) =
      contract.functions.map fun function => (function, Abi.Entry.ofFunction function) := by
    rw [List.zip_map_right, List.zip_eq_zipWith, List.zipWith_self, List.map_map]
    rfl
  rw [paired, List.find?_filter, List.find?_map, Option.map_map]
  simp only [Function.comp_def, Bool.decide_and, Bool.decide_eq_true]

namespace Dispatcher

/-! The instructions that a call goes through. -/

/-- Through the guard of a stub, and what is behind it if the guard lets the call pass. -/
def guardPath (count index : Nat) (value : Word) (behind : List Instr) : List Instr :=
  [.op .callvalue, .op .dup1, .op .iszero, .pushLabel (accepted count index), .op .jumpi] ++
    if value = 0 then .jumpDest (accepted count index) :: .op .pop :: behind else refuse

def stubPath (count : Nat) (function : Function) (index : Nat) (value : Word) : List Instr :=
  let behind := loads function.parameters.length ++ finish function.returns.isSome
  .jumpDest (entry index) ::
    if function.modifiers.payable then behind else guardPath count index value behind

/-- Through the comparisons up to the first that agrees with the selector of the call. -/
def comparisonPath (select : String → Selector) (count : Nat) (selector : Selector)
    (value : Word) : (index : Nat) → List Function → List Instr
  | _, [] => .jumpDest (unmatched count) :: refuse
  | index, function :: functions =>
      comparison (select function.signature) index ++
        if select function.signature = selector then stubPath count function index value
        else comparisonPath select count selector value (index + 1) functions

def path (select : String → Selector) (functions : List Function) (data : List UInt8)
    (value : Word) : List Instr :=
  [.push 0x80, .push 0x40, .op .mstore, .op .calldatasize, .op .iszero,
    .pushLabel (noData functions.length), .op .jumpi] ++
    if data = [] then [.jumpDest (noData functions.length), .op .stop]
    else
      [.push 0, .op .calldataload, .push 0xE0, .op .shr] ++
        comparisonPath select functions.length (Selector.ofBytes (window data 0 4)) value 0
          functions

section

variable {program rest behind : List Instr} {layout : Layout} {call : Call}
variable {stack : List Word} {memory : Memory} {outcome : Outcome}

theorem ofBool_beq_ne_zero_iff {left right : Word} :
    Word.ofBool (left == right) ≠ 0 ↔ left = right := by
  by_cases same : left = right
  · simp [same, Word.ofBool]
  · rw [beq_eq_false_iff_ne.2 same]
    simp [same, Word.ofBool]

theorem ofBool_beq_eq_zero_iff {left right : Word} :
    Word.ofBool (left == right) = 0 ↔ left ≠ right :=
  not_iff_not.1 (ofBool_beq_ne_zero_iff.trans not_not.symm)

theorem runsFrom_refuse (begins : Begins program layout call.code) :
    RunsFrom program call (refuse ++ rest) stack memory refuse (.reverted []) := by
  apply runsFrom_push begins
  apply runsFrom_dup1 begins
  exact runsFrom_revert begins

theorem slice_storeWord_zero (memory : Memory) :
    (memory.storeWord 0 0).slice 0 32 = List.replicate 32 0 := by
  rw [List.eq_replicate_iff]
  refine ⟨by simp [Memory.slice], ?_⟩
  intro byte member
  obtain ⟨index, inside, rfl⟩ := List.mem_map.1 member
  simp [Memory.storeWord, Word.byte, List.mem_range.1 inside]

theorem runsFrom_finish (begins : Begins program layout call.code) (hasResult : Bool) :
    RunsFrom program call (finish hasResult ++ rest) stack memory (finish hasResult)
      (if hasResult then .returned (List.replicate 32 0) else .stopped) := by
  cases hasResult with
  | false => exact runsFrom_stop begins
  | true =>
      rw [if_pos rfl, ← slice_storeWord_zero memory]
      apply runsFrom_push begins
      apply runsFrom_push begins
      apply runsFrom_mstore begins
      apply runsFrom_push begins
      apply runsFrom_push begins
      exact runsFrom_return begins

/-- Loading arguments changes only the stack, which nothing after it looks at. -/
theorem runsFrom_loads (begins : Begins program layout call.code) (parameters : Nat)
    (runs : ∀ stack, RunsFrom program call rest stack memory behind outcome) :
    RunsFrom program call (loads parameters ++ rest) stack memory (loads parameters ++ behind)
      outcome := by
  unfold loads
  induction List.range parameters generalizing stack with
  | nil => exact runs stack
  | cons index indices induction =>
      rw [List.flatMap_cons, List.append_assoc, List.append_assoc]
      apply runsFrom_push begins
      apply runsFrom_calldataload begins
      exact induction

theorem runsFrom_valueGuard (begins : Begins program layout call.code) {before : List Instr}
    {count index : Nat} (here : program = before ++ (valueGuard count index ++ rest))
    (refused : call.value ≠ 0 → outcome = .reverted [])
    (runs : call.value = 0 → RunsFrom program call rest stack memory behind outcome) :
    RunsFrom program call (valueGuard count index ++ rest) stack memory
      (guardPath count index call.value behind) outcome := by
  have bound : program =
      (before ++ [.op .callvalue, .op .dup1, .op .iszero, .pushLabel (accepted count index),
        .op .jumpi] ++ refuse) ++ .jumpDest (accepted count index) :: .op .pop :: rest := by
    simp [here, valueGuard]
  apply runsFrom_callvalue begins
  apply runsFrom_dup1 begins
  apply runsFrom_iszero begins
  apply runsFrom_branch begins bound
  · intro isZero
    have nonzero := ofBool_beq_eq_zero_iff.1 isZero
    rw [refused nonzero, if_neg nonzero]
    exact runsFrom_refuse begins
  · intro notZero
    have zero := ofBool_beq_ne_zero_iff.1 notZero
    rw [if_pos zero]
    apply runsFrom_jumpDest begins
    apply runsFrom_pop begins
    exact runs zero

/-- A call without data is singled out; else the selector is left on the stack. -/
theorem runsFrom_head (begins : Begins program layout call.code) {before target : List Instr}
    {count : Nat} (bound : program = before ++ .jumpDest (noData count) :: .op .stop :: target)
    (stopped : call.data.bytes = [] → outcome = .stopped)
    (runs : call.data.bytes ≠ [] → ∀ memory, RunsFrom program call rest
      (BitVec.ofNat 256 (Selector.ofBytes (window call.data.bytes 0 4)).toNat :: stack) memory
      behind outcome) :
    RunsFrom program call (head count ++ rest) stack memory
      ([.push 0x80, .push 0x40, .op .mstore, .op .calldatasize, .op .iszero,
        .pushLabel (noData count), .op .jumpi] ++
        if call.data.bytes = [] then [.jumpDest (noData count), .op .stop]
        else [.push 0, .op .calldataload, .push 0xE0, .op .shr] ++ behind) outcome := by
  have size : BitVec.ofNat 256 call.data.bytes.length = 0 ↔ call.data.bytes = [] := by
    have fits := call.data.length_le
    rw [BitVec.toNat_allOnes] at fits
    rw [← List.length_eq_zero_iff, ← BitVec.toNat_inj, BitVec.toNat_ofNat,
      Nat.mod_eq_of_lt (by omega)]
    rfl
  apply runsFrom_push begins
  apply runsFrom_push begins
  apply runsFrom_mstore begins
  apply runsFrom_calldatasize begins
  apply runsFrom_iszero begins
  apply runsFrom_branch begins bound
  · intro isZero
    have data : call.data.bytes ≠ [] := mt size.2 (ofBool_beq_eq_zero_iff.1 isZero)
    rw [if_neg data]
    apply runsFrom_push begins
    apply runsFrom_calldataload begins
    apply runsFrom_push begins
    apply runsFrom_shr begins
    have next := runs data
    rw [← shr_selector] at next
    exact next _
  · intro notZero
    have empty := size.1 (ofBool_beq_ne_zero_iff.1 notZero)
    rw [stopped empty, if_pos empty]
    apply runsFrom_jumpDest begins
    exact runsFrom_stop begins

theorem fallthrough_append (count : Nat) (rest : List Instr) :
    fallthrough count ++ rest =
      .jumpDest (unmatched count) :: (refuse ++ .jumpDest (noData count) :: .op .stop :: rest) := by
  simp [fallthrough]

theorem stub_append (count : Nat) (function : Function) (index : Nat) (rest : List Instr) :
    stub count function index ++ rest =
      .jumpDest (entry index) ::
        ((if function.modifiers.payable then [] else valueGuard count index) ++
          (loads function.parameters.length ++ (finish function.returns.isSome ++ rest))) := by
  simp [stub]

theorem runsFrom_stub (begins : Begins program layout call.code) {before : List Instr}
    {count index : Nat} {function : Function} (callable : function.isConstructor = false)
    (here : program = before ++ (stub count function index ++ rest)) :
    RunsFrom program call (stub count function index ++ rest) stack memory
      (stubPath count function index call.value) (answerOf (Abi.Entry.ofFunction function) call.value) := by
  -- The last two parts of the stub do not depend on what lies on the stack.
  have finished : ∀ stack, RunsFrom program call (finish function.returns.isSome ++ rest) stack
      memory (finish function.returns.isSome) (if (Abi.Entry.ofFunction function).outputs ≠ [] then
        .returned (List.replicate 32 0) else .stopped) := by
    intro stack
    simp only [outputs_ne_nil_iff callable]
    exact runsFrom_finish begins _
  have loaded : ∀ stack, RunsFrom program call
      (loads function.parameters.length ++ (finish function.returns.isSome ++ rest)) stack memory
      (loads function.parameters.length ++ finish function.returns.isSome)
        (if (Abi.Entry.ofFunction function).outputs ≠ [] then
          .returned (List.replicate 32 0) else .stopped) := by
    intro stack
    exact runsFrom_loads begins _ finished
  rw [stub_append] at here ⊢
  unfold answerOf stubPath
  simp only [mutability_ne_payable_iff callable]
  apply runsFrom_jumpDest begins
  cases payable : function.modifiers.payable with
  | true => simpa [payable] using loaded stack
  | false =>
      simp only [payable, Bool.false_eq_true, if_false] at here ⊢
      have guardHere : program = (before ++ [.jumpDest (entry index)]) ++
          (valueGuard count index ++ (loads function.parameters.length ++
            (finish function.returns.isSome ++ rest))) := by
        simpa using here
      apply runsFrom_valueGuard begins guardHere
      · intro nonzero
        exact if_pos ⟨nonzero, trivial⟩
      · intro zero
        rw [if_neg fun both => both.1 zero]
        exact loaded stack

end

theorem ofNat_selector_inj {left right : Selector} :
    BitVec.ofNat 256 (left.toNat % 256 ^ Opcode.push4.immediateLen) =
      BitVec.ofNat 256 right.toNat ↔ left = right := by
  have leftBound := left.toNat_lt
  have rightBound := right.toNat_lt
  have kept : left.toNat % 256 ^ Opcode.push4.immediateLen = left.toNat :=
    Nat.mod_eq_of_lt leftBound
  rw [kept]
  constructor
  · intro same
    have values := congrArg BitVec.toNat same
    rw [BitVec.toNat_ofNat, BitVec.toNat_ofNat] at values
    apply UInt32.toNat_inj.1
    omega
  · rintro rfl
    rfl

section

variable {select : String → Selector} {functions : List Function} {layout : Layout} {call : Call}
variable {memory : Memory}

theorem instrs_split {done remaining : List Function} {function : Function}
    (split : functions = done ++ function :: remaining) :
    instrs select functions =
      (head functions.length ++ comparisons select 0 functions ++ fallthrough functions.length ++
        stubs functions.length 0 done) ++
        (stub functions.length function done.length ++
          stubs functions.length (done.length + 1) remaining) := by
  have stubParts : stubs functions.length 0 functions =
      stubs functions.length 0 done ++ (stub functions.length function done.length ++
        stubs functions.length (done.length + 1) remaining) := by
    rw [← stubs_cons, ← Nat.zero_add done.length, ← stubs_append, ← split]
  rw [instrs_eq, stubParts]
  simp only [List.append_assoc]

theorem runsFrom_comparisons (begins : Begins (instrs select functions) layout call.code)
    (callable : ∀ function ∈ functions, function.isConstructor = false) (selector : Selector)
    {done remaining : List Function} (split : functions = done ++ remaining) :
    RunsFrom (instrs select functions) call
      (comparisons select done.length remaining ++
        (fallthrough functions.length ++ stubs functions.length 0 functions))
      [BitVec.ofNat 256 selector.toNat] memory
      (comparisonPath select functions.length selector call.value done.length remaining)
      (match remaining.find? fun function => select function.signature == selector with
      | none => .reverted []
      | some function => answerOf (Abi.Entry.ofFunction function) call.value) := by
  -- The functions in `done` have other selectors. Their number gives the next label.
  induction remaining generalizing done with
  | nil =>
      rw [fallthrough_append]
      apply runsFrom_jumpDest begins
      exact runsFrom_refuse begins
  | cons function remaining induction =>
      have stubHere : instrs select functions = _ := instrs_split split
      have isCallable : function.isConstructor = false := callable function (by simp [split])
      rw [comparisons_cons, List.append_assoc, comparisonPath]
      apply runsFrom_dup1 begins
      apply runsFrom_pushFixed begins
      apply runsFrom_eq begins
      rw [stub_append] at stubHere
      apply runsFrom_branch begins stubHere
      · intro isZero
        have different := mt ofNat_selector_inj.2 (ofBool_beq_eq_zero_iff.1 isZero)
        have nextSplit : functions = (done ++ [function]) ++ remaining := by simp [split]
        simpa [List.find?_cons, different] using induction nextSplit
      · intro notZero
        have same := ofNat_selector_inj.1 (ofBool_beq_ne_zero_iff.1 notZero)
        simp only [List.find?_cons, same, beq_self_eq_true]
        rw [← stub_append] at stubHere ⊢
        exact runsFrom_stub begins isCallable stubHere

/-- A whole run goes to the stub of the first function that has the selector of the call. -/
theorem runsFrom_instrs (begins : Begins (instrs select functions) layout call.code)
    (callable : ∀ function ∈ functions, function.isConstructor = false) :
    RunsFrom (instrs select functions) call (instrs select functions) [] .empty
      (path select functions call.data.bytes call.value)
      (if call.data.bytes = [] then .stopped
      else
        match functions.find? fun function =>
          select function.signature == Selector.ofBytes (window call.data.bytes 0 4) with
        | none => .reverted []
        | some function => answerOf (Abi.Entry.ofFunction function) call.value) := by
  have parts : instrs select functions =
      head functions.length ++ (comparisons select 0 functions ++
        (fallthrough functions.length ++ stubs functions.length 0 functions)) := by
    simp only [instrs_eq, List.append_assoc]
  have noDataHere : instrs select functions =
      (head functions.length ++ comparisons select 0 functions ++
        .jumpDest (unmatched functions.length) :: refuse) ++
        .jumpDest (noData functions.length) :: .op .stop ::
          stubs functions.length 0 functions := by
    rw [parts, fallthrough_append]
    simp only [List.append_assoc, List.cons_append]
  suffices runs : RunsFrom (instrs select functions) call
      (head functions.length ++ (comparisons select 0 functions ++
        (fallthrough functions.length ++ stubs functions.length 0 functions))) [] .empty
      (path select functions call.data.bytes call.value) _ by
    rwa [← parts] at runs
  apply runsFrom_head begins noDataHere
  · intro empty
    exact if_pos empty
  · intro nonempty memory
    rw [if_neg nonempty]
    exact runsFrom_comparisons begins callable _ (List.nil_append functions).symm

end

end Dispatcher

theorem runsFrom_runtimeCode {select : String → Selector} {contract : Contract} {code : List UInt8}
    (assembled : runtimeCodeWith select contract = .ok code) (data : CallData) (value : Word) :
    RunsFrom (Dispatcher.instrs select contract.callable) ⟨code, data, value⟩
      (Dispatcher.instrs select contract.callable) [] .empty
      (Dispatcher.path select contract.callable data.bytes value)
      (answer select contract (Abi.ofContract contract) data.bytes value) := by
  have callable : ∀ function ∈ contract.callable, function.isConstructor = false := by
    intro function member
    simpa using (List.mem_filter.1 member).2
  have image : Image _ _ (Call.code ⟨code, data, value⟩) :=
    Dispatcher.image_of_runtimeCode assembled
  have runs := Dispatcher.runsFrom_instrs image.begins callable
  unfold answer
  rw [calledEntry?_ofContract]
  cases found : contract.callable.find? fun function =>
      select function.signature == Selector.ofBytes (window data.bytes 0 4) <;>
    simpa only [found, Option.map_none, Option.map_some] using runs

theorem halts_runtimeCode {select : String → Selector} {contract : Contract} {code : List UInt8}
    (assembled : runtimeCodeWith select contract = .ok code) (data : CallData) (value : Word) :
    Call.Halts ⟨code, data, value⟩
      (answer select contract (Abi.ofContract contract) data.bytes value) :=
  (runsFrom_runtimeCode assembled data value).halts

theorem runtimeCode_of_generateWith {select : String → Selector} {contract : Contract}
    {output : Compiled} (generated : contract.generateWith select = .ok output) :
    runtimeCodeWith select contract = .ok output.runtime ∧ output.abi = Abi.ofContract contract := by
  obtain ⟨runtime, assembled, remaining⟩ := bind_eq_ok_iff.1 generated
  obtain ⟨creation, -, returned⟩ := bind_eq_ok_iff.1 remaining
  cases returned
  exact ⟨assembled, rfl⟩

/-- In every program that code is generated for, the code of every contract answers every call, with
any data and value, as the contract's interface description tells a caller. -/
theorem generated_code_answers_calls {select : String → Selector} {program : Program}
    {outputs : List Compiled} (generated : program.generateWith select = .ok outputs) :
    List.Forall₂ (fun contract compiled => ∀ (data : CallData) (value : Word),
      Call.Halts ⟨compiled.runtime, data, value⟩
        (answer select contract compiled.abi data.bytes value)) program.contracts outputs := by
  refine List.Forall₂.imp ?_ (mapM_eq_ok_iff.1 generated)
  intro contract compiled output data value
  obtain ⟨runtime, assembled, remaining⟩ := bind_eq_ok_iff.1 output
  obtain ⟨creation, -, returned⟩ := bind_eq_ok_iff.1 remaining
  cases returned
  exact halts_runtimeCode assembled data value

/-- A contract with a constructor and two functions, of which only the second may be sent value. -/
def vault : Contract :=
  ⟨⟨"Vault", .start⟩, [],
    [⟨⟨"constructor", .start⟩, [], none, .none, []⟩,
      ⟨⟨"total", .start⟩, [], some (.single "uint256"), Modifiers.none.add .view, []⟩,
      ⟨⟨"pay", .start⟩, [⟨⟨"to", .start⟩, .named "address", none⟩], none,
        Modifiers.none.add .payable, []⟩], []⟩

/-- Selectors for the functions of `vault`. -/
def vaultSelector (signature : String) : Selector :=
  if signature = "total()" then 1 else 2

theorem vault_answers_calls : ∃ compiled,
    Program.generateWith vaultSelector ⟨[vault]⟩ = .ok [compiled] ∧
      Call.Halts ⟨compiled.runtime, ⟨[0, 0, 0, 1], by decide⟩, 0⟩
        (.returned (List.replicate 32 0)) ∧
      Call.Halts ⟨compiled.runtime, ⟨[0, 0, 0, 1, 5], by decide⟩, 9⟩ (.reverted []) ∧
      Call.Halts ⟨compiled.runtime, ⟨[0, 0, 0, 2], by decide⟩, 9⟩ .stopped := by
  refine ⟨_, rfl, ?_⟩
  obtain ⟨answers, -⟩ :=
    List.forall₂_cons.1 (@generated_code_answers_calls vaultSelector ⟨[vault]⟩ _ rfl)
  exact ⟨answers _ _, answers _ _, answers _ _⟩

end Covenant.Evm
