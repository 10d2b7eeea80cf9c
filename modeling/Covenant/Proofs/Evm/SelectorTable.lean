import Covenant.Proofs.Evm.CodeSize
import Covenant.Proofs.Evm.Disassembling
import Covenant.Proofs.Evm.Dispatching
import Covenant.Proofs.Lists
import Covenant.Proofs.Text.Hexadecimal
import Mathlib

/-! The selectors in the code of a contract, found by reading its bytes back. A caller who knows only
the interface description computes the same selectors, in the same order, and each of them leads to a
jump target of its own. -/

namespace Covenant

/-- The signature that a caller makes out of an entry. -/
def Abi.Entry.signature (entry : Entry) : String :=
  entry.name ++ "(" ++ String.intercalate "," (entry.inputs.map (·.type)) ++ ")"

/-- The items right behind those that satisfy a test. -/
def followers {α : Type} (test : α → Bool) : List α → List α
  | [] => []
  | item :: rest => (if test item then rest.head?.toList else []) ++ followers test rest

section

variable {α β : Type}

theorem followers_append_of_none {test : α → Bool} {items : List α}
    (none : ∀ item ∈ items, test item = false) (rest : List α) :
    followers test (items ++ rest) = followers test rest := by
  induction items with
  | nil => rfl
  | cons item items induction =>
      have first : test item = false := none item (by simp)
      rw [List.cons_append, followers, first, induction fun other member => none other (by simp [member])]
      rfl

theorem forall₂_followers {related : α → β → Prop} {test : α → Bool} {other : β → Bool}
    (same : ∀ item image, related item image → test item = other image) {items : List α}
    {images : List β} (all : List.Forall₂ related items images) :
    List.Forall₂ related (followers test items) (followers other images) := by
  induction all with
  | nil => exact .nil
  | @cons item image items images first rest induction =>
      rw [followers, followers, same item image first]
      refine List.rel_append ?_ induction
      split
      · cases rest with
        | nil => exact .nil
        | cons second _ => exact .cons second .nil
      · exact .nil

end

namespace Evm

/-! Instructions that are found in code which was read back. -/

def Instruction.has (opcode : Opcode) (instruction : Instruction) : Bool :=
  instruction.opcode? == some opcode

theorem Instruction.Reads.has {layout : Layout} {instruction : Instruction} {instr : Instr}
    (reads : instruction.Reads layout instr) (opcode : Opcode) :
    instruction.has opcode = (instr.opcode == opcode) := by
  rw [Instruction.has, reads.opcode]
  rfl

theorem opcodes_of_reads {layout : Layout} {instructions : List Instruction} {program : List Instr}
    (reads : List.Forall₂ (Instruction.Reads layout) instructions program) :
    instructions.map Instruction.opcode? = program.map fun instr => some instr.opcode :=
  map_eq_map_of_forall₂ (fun _ _ _ read => read.opcode) reads

theorem Image.mem_of_jumpDest {program front back : List Instr} {layout : Layout}
    {code : List UInt8} {label : Nat} (image : Image program layout code)
    (here : program = front ++ .jumpDest label :: back) :
    ∃ target ∈ disassemble code, target.offset = codeSize front ∧
      target.opcode? = some .jumpdest := by
  obtain ⟨target, member, found⟩ := List.any_eq_true.1 (image.begins.isJumpTarget here)
  rw [Bool.and_eq_true, beq_iff_eq, beq_iff_eq] at found
  exact ⟨target, member, found.1, Opcode.ofByte?_eq_some_iff.2 found.2.symm⟩

namespace Dispatcher

/-! Only comparisons push four bytes, as long as the arguments are few enough for three. -/

/-- An instruction that belongs to no comparison. -/
def Aside (instr : Instr) : Prop :=
  instr.opcode ≠ .push4 ∧ instr.opcode ≠ .eq

theorem aside_loads {parameters : Nat} (few : parameters ≤ 65535) :
    ∀ instr ∈ loads parameters, Aside instr := by
  intro instr member
  obtain ⟨index, inside, piece⟩ := List.mem_flatMap.1 member
  have small : (argumentOffset index).toNat ≤ 0xFFFFFF := by
    rw [List.mem_range] at inside
    rw [toNat_argumentOffset]
    omega
  rw [List.mem_cons, List.mem_singleton] at piece
  rcases piece with rfl | rfl
  · rw [Aside, Instr.opcode, Opcode.narrowestPush, if_pos small]
    split_ifs <;> decide
  · exact ⟨by decide, by decide⟩

theorem aside_stub {function : Function} (few : function.parameters.length ≤ 65535)
    (count index : Nat) : ∀ instr ∈ stub count function index, Aside instr := by
  have guarded : ∀ instr ∈ valueGuard count index, Aside instr := by
    simp [valueGuard, refuse, Aside, Instr.opcode, Opcode.narrowestPush]
  have finished : ∀ instr ∈ finish function.returns.isSome, Aside instr := by
    cases function.returns.isSome <;> simp [finish, Aside, Instr.opcode, Opcode.narrowestPush]
  simp only [stub, List.cons_append, List.mem_cons, List.mem_append]
  rintro instr (rfl | (inGuard | inLoads) | inFinish)
  · simp [Aside, Instr.opcode]
  · split at inGuard
    · cases inGuard
    · exact guarded instr inGuard
  · exact aside_loads few instr inLoads
  · exact finished instr inFinish

theorem aside_head (count : Nat) : ∀ instr ∈ head count, Aside instr := by
  simp [head, Aside, Instr.opcode, Opcode.narrowestPush]

theorem aside_rest {functions : List Function}
    (few : ∀ function ∈ functions, function.parameters.length ≤ 65535) :
    ∀ instr ∈ fallthrough functions.length ++ stubs functions.length 0 functions, Aside instr := by
  have falling : ∀ instr ∈ fallthrough functions.length, Aside instr := by
    simp [fallthrough, refuse, Aside, Instr.opcode, Opcode.narrowestPush]
  intro instr member
  rcases List.mem_append.1 member with inFallthrough | inStubs
  · exact falling instr inFallthrough
  · obtain ⟨⟨function, index⟩, isFunction, inside⟩ := List.mem_flatMap.1 inStubs
    have isMember : function ∈ functions := List.fst_mem_of_mem_zipIdx isFunction
    exact aside_stub (few function isMember) _ index instr inside

section

variable (select : String → Selector) {functions : List Function}

theorem filter_comparisons (start : Nat) (functions : List Function) :
    (comparisons select start functions).filter (fun instr => instr.opcode == .push4) =
      functions.map fun function => .pushFixed .push4 (select function.signature) := by
  induction functions generalizing start with
  | nil => rfl
  | cons function functions induction =>
      rw [comparisons_cons, List.filter_append, induction]
      rfl

theorem followers_push4_comparisons (start : Nat) (functions : List Function)
    (rest : List Instr) :
    followers (fun instr => instr.opcode == .push4) (comparisons select start functions ++ rest) =
      List.replicate functions.length (.op .eq) ++
        followers (fun instr => instr.opcode == .push4) rest := by
  induction functions generalizing start with
  | nil => rfl
  | cons function functions induction =>
      rw [comparisons_cons, List.append_assoc, List.length_cons, List.replicate_succ,
        List.cons_append, ← induction (start + 1)]
      rfl

theorem followers_eq_comparisons (start : Nat) (functions : List Function)
    (rest : List Instr) :
    followers (fun instr => instr.opcode == .eq) (comparisons select start functions ++ rest) =
      (List.range' start functions.length).map (fun index => .pushLabel (entry index)) ++
        followers (fun instr => instr.opcode == .eq) rest := by
  induction functions generalizing start with
  | nil => rfl
  | cons function functions induction =>
      rw [comparisons_cons, List.append_assoc, List.length_cons, List.range'_succ, List.map_cons,
        List.cons_append, ← induction (start + 1)]
      rfl

theorem instrs_parts (functions : List Function) :
    instrs select functions = head functions.length ++ (comparisons select 0 functions ++
      (fallthrough functions.length ++ stubs functions.length 0 functions)) := by
  simp only [instrs_eq, List.append_assoc]

variable (few : ∀ function ∈ functions, function.parameters.length ≤ 65535)

include few

theorem filter_instrs :
    (instrs select functions).filter (fun instr => instr.opcode == .push4) =
      functions.map fun function => .pushFixed .push4 (select function.signature) := by
  have none (items : List Instr) (aside : ∀ instr ∈ items, Aside instr) :
      items.filter (fun instr => instr.opcode == .push4) = [] :=
    List.filter_eq_nil_iff.2 fun instr member => by simp [(aside instr member).1]
  rw [instrs_parts, List.filter_append, List.filter_append, none _ (aside_head _),
    none _ (aside_rest few), filter_comparisons]
  simp

theorem followers_instrs :
    followers (fun instr => instr.opcode == .push4) (instrs select functions) =
        List.replicate functions.length (.op .eq) ∧
      followers (fun instr => instr.opcode == .eq) (instrs select functions) =
        (List.range functions.length).map fun index => .pushLabel (entry index) := by
  have rest := aside_rest few
  have none (test : Instr → Bool) {items : List Instr}
      (all : ∀ instr ∈ items, test instr = false) : followers test items = [] := by
    simpa [followers] using followers_append_of_none all []
  constructor
  · rw [instrs_parts, followers_append_of_none, followers_push4_comparisons, none, List.append_nil]
    · intro instr member
      simp [(rest instr member).1]
    · intro instr member
      simp [(aside_head _ instr member).1]
  · rw [instrs_parts, followers_append_of_none, followers_eq_comparisons, none, List.append_nil,
      List.range_eq_range']
    · intro instr member
      simp [(rest instr member).2]
    · intro instr member
      simp [(aside_head _ instr member).2]

end

/-! Where the stubs stand. -/

section

variable (select : String → Selector) (functions : List Function)

/-- The offset of the stub of a function, which lies behind the stubs of those before it. -/
def entryOffset (index : Nat) : Nat :=
  codeSize (head functions.length ++ comparisons select 0 functions ++
    fallthrough functions.length ++ stubs functions.length 0 (functions.take index))

variable {functions} {index : Nat}

theorem exists_entry (inside : index < functions.length) : ∃ front back,
    instrs select functions = front ++ .jumpDest (entry index) :: back ∧
      codeSize front = entryOffset select functions index := by
  have split : functions = functions.take index ++ functions[index] :: functions.drop (index + 1) := by
    rw [← List.drop_eq_getElem_cons inside, List.take_append_drop]
  have length : (functions.take index).length = index := List.length_take_of_le (by omega)
  have parts : instrs select functions = _ := instrs_split split
  rw [stub_append, length] at parts
  exact ⟨_, _, parts, rfl⟩

theorem entryOffset_lt_succ (inside : index < functions.length) :
    entryOffset select functions index < entryOffset select functions (index + 1) := by
  have opened : 0 < codeSize (stub functions.length functions[index] index) := by
    rw [← List.append_nil (stub _ _ _), stub_append, codeSize_cons, Instr.size]
    omega
  rw [entryOffset, entryOffset, List.take_succ_eq_append_getElem inside, stubs_append,
    codeSize_append, codeSize_append _ (_ ++ _), codeSize_append _ (stubs _ _ [_]), stubs_cons,
    codeSize_append _ (stubs _ _ []), List.length_take_of_le (by omega), Nat.zero_add]
  omega

theorem entryOffset_lt {left right : Nat} (before : left < right) (inside : right < functions.length) :
    entryOffset select functions left < entryOffset select functions right := by
  induction right, before using Nat.le_induction with
  | base => exact entryOffset_lt_succ select (by omega)
  | succ right _ induction =>
      exact (induction (by omega)).trans (entryOffset_lt_succ select (by omega))

variable {layout : Layout} {code : List UInt8}

theorem offset?_entry (image : Image (instrs select functions) layout code)
    (inside : index < functions.length) :
    layout.offset? (entry index) = some (entryOffset select functions index) := by
  obtain ⟨front, back, here, size⟩ := exists_entry select inside
  rw [image.placed here, size]

/-- Jumps to the stub of a function push its offset. -/
theorem value_of_reads (image : Image (instrs select functions) layout code)
    (fits : codeSize (instrs select functions) ≤ maxJumpTarget) (inside : index < functions.length)
    {instruction : Instruction} (reads : instruction.Reads layout (.pushLabel (entry index))) :
    instruction.value = entryOffset select functions index := by
  obtain ⟨front, back, here, size⟩ := exists_entry select inside
  have small : entryOffset select functions index ≤ 65535 := by
    rw [here, codeSize_append, size] at fits
    exact (Nat.le_add_right _ _).trans fits
  have immediate := reads.immediate
  rw [Instr.immediate, offset?_entry select image inside] at immediate
  rw [Instruction.value, immediate]
  exact (natOfBytes_bigEndian _ _).trans (Nat.mod_eq_of_lt (Nat.lt_succ_of_le small))

end

end Dispatcher

/-! The table of selectors at the front of the code. -/

/-- What a caller finds in the code of a contract who knows only its interface description. -/
structure SelectorTable (select : String → Selector) (contract : Contract) (abi : List Abi.Entry)
    (code : List Instruction) : Prop where
  selectors : (code.filter (·.has .push4)).map Instruction.immediate =
    (abi.filter (·.kind == .function)).map fun entry =>
      bigEndian (select entry.signature).toNat 4
  count : (code.filter (·.has .push4)).length = contract.callable.length
  compared : (followers (·.has .push4) code).map Instruction.opcode? =
    List.replicate contract.callable.length (some .eq)
  jumps : (followers (·.has .eq) code).map Instruction.opcode? =
    List.replicate contract.callable.length (some .push2)
  targets : ∀ jump ∈ followers (·.has .eq) code, ∃ target ∈ code,
    target.opcode? = some .jumpdest ∧ target.offset = jump.value
  increasing : ((followers (·.has .eq) code).map Instruction.value).Pairwise (· < ·)

theorem kind_ofFunction (function : Function) : (Abi.Entry.ofFunction function).kind =
    if function.isConstructor then .constructor else .function := by
  unfold Abi.Entry.ofFunction
  cases function.isConstructor <;> rfl

/-- The entries of the functions that can be called. -/
theorem functions_ofContract (contract : Contract) :
    (Abi.ofContract contract).filter (·.kind == .function) =
      contract.callable.map Abi.Entry.ofFunction := by
  have isCallable (function : Function) :
      ((Abi.Entry.ofFunction function).kind == .function) = !function.isConstructor := by
    rw [kind_ofFunction]
    cases function.isConstructor <;> rfl
  rw [Abi.ofContract, List.filter_map, Contract.callable]
  simp only [Function.comp_def, isCallable]

theorem signature_ofFunction {function : Function} (callable : function.isConstructor = false) :
    (Abi.Entry.ofFunction function).signature = function.signature := by
  simp [Abi.Entry.ofFunction, callable, Abi.Entry.signature, Covenant.Function.signature,
    Function.comp_def]

theorem signatures_ofContract (contract : Contract) :
    ((Abi.ofContract contract).filter (·.kind == .function)).map Abi.Entry.signature =
      contract.callable.map Function.signature := by
  rw [functions_ofContract, List.map_map]
  apply List.map_congr_left
  intro function member
  exact signature_ofFunction (by simpa using (List.mem_filter.1 member).2)

theorem selectors_ofContract (select : String → Selector) (contract : Contract) :
    ((Abi.ofContract contract).filter (·.kind == .function)).map
        (fun entry => bigEndian (select entry.signature).toNat 4) =
      contract.callable.map fun function => bigEndian (select function.signature).toNat 4 := by
  have mapped := congrArg (List.map fun signature => bigEndian (select signature).toNat 4)
    (signatures_ofContract contract)
  simpa only [List.map_map, Function.comp_def] using mapped

theorem values_of_reads {select : String → Selector} {functions : List Function} {layout : Layout}
    {code : List UInt8} (image : Image (Dispatcher.instrs select functions) layout code)
    (fits : codeSize (Dispatcher.instrs select functions) ≤ maxJumpTarget)
    {jumps : List Instruction} (reads : List.Forall₂ (Instruction.Reads layout) jumps
      ((List.range functions.length).map fun index => .pushLabel (Dispatcher.entry index))) :
    jumps.map Instruction.value =
      (List.range functions.length).map (Dispatcher.entryOffset select functions) := by
  have indexed := (List.forall₂_map_right_iff.1 reads).flip
  symm
  apply map_eq_map_of_forall₂ ?_ indexed
  intro index member jump read
  exact (Dispatcher.value_of_reads select image fits (List.mem_range.1 member) read).symm

theorem selectorTable_of_generateWith {select : String → Selector} {contract : Contract}
    {compiled : Compiled} (generated : contract.generateWith select = .ok compiled) :
    SelectorTable select contract compiled.abi (disassemble compiled.runtime) := by
  obtain ⟨fits, -⟩ := Contract.codeSize_of_generateWith generated
  obtain ⟨runtime, assembled, remaining⟩ := bind_eq_ok_iff.1 generated
  obtain ⟨creation, -, returned⟩ := bind_eq_ok_iff.1 remaining
  cases returned
  have few : ∀ function ∈ contract.callable, function.parameters.length ≤ 65535 := by
    intro function member
    have part := contract.parameters_le_codeSize member
    rw [maxJumpTarget] at fits
    omega
  rw [Contract.codeSize, ← Dispatcher.codeSize_instrs select] at fits
  have image : Image (Dispatcher.instrs select contract.callable) _ runtime :=
    Dispatcher.image_of_runtimeCode assembled
  -- What is read at each place of the table is what was written there.
  obtain ⟨comparing, jumping⟩ := Dispatcher.followers_instrs select few
  have pushed := List.rel_filter (fun _ _ reads => iff_of_eq (congrArg (· = true) (reads.has .push4)))
    image.reads
  have compared := forall₂_followers (fun _ _ reads => reads.has .push4) image.reads
  have jumps := forall₂_followers (fun _ _ reads => reads.has .eq) image.reads
  rw [Dispatcher.filter_instrs select few] at pushed
  rw [comparing] at compared
  rw [jumping] at jumps
  have values := values_of_reads image fits jumps
  constructor
  case selectors =>
    rw [selectors_ofContract, map_eq_map_of_forall₂ (fun _ _ _ reads => reads.immediate) pushed,
      List.map_map]
    rfl
  case count => rw [pushed.length_eq, List.length_map]
  case compared =>
    rw [opcodes_of_reads compared, List.map_replicate]
    rfl
  case jumps =>
    rw [opcodes_of_reads jumps, List.map_map, List.eq_replicate_iff]
    simp [Instr.opcode]
  case targets =>
    intro jump member
    have value := List.mem_map_of_mem (f := Instruction.value) member
    rw [values] at value
    obtain ⟨index, inside, offset⟩ := List.mem_map.1 value
    obtain ⟨front, back, here, size⟩ := Dispatcher.exists_entry select (List.mem_range.1 inside)
    obtain ⟨target, found, place, opcode⟩ := image.mem_of_jumpDest here
    exact ⟨target, found, opcode, by rw [place, size, offset]⟩
  case increasing =>
    rw [values, List.pairwise_map]
    apply List.pairwise_lt_range.imp_of_mem
    intro left right _ inside before
    exact Dispatcher.entryOffset_lt select before (List.mem_range.1 inside)

/-- In every program that code is generated for, the runtime code of each contract pushes four bytes
only to compare them with the selector of a call. These are the selectors of the functions of the
interface description in its order, and the jumps behind them go to targets that lie ever further. -/
theorem generated_code_has_selector_table {select : String → Selector} {program : Program}
    {outputs : List Compiled} (generated : program.generateWith select = .ok outputs) :
    List.Forall₂ (fun contract compiled => ∃ code,
      Hex.decode? (Hex.encode compiled.runtime) = some code ∧
        SelectorTable select contract compiled.abi (disassemble code))
      program.contracts outputs := by
  refine List.Forall₂.imp ?_ (mapM_eq_ok_iff.1 generated)
  intro contract compiled output
  exact ⟨compiled.runtime, Hex.decode?_encode _, selectorTable_of_generateWith output⟩

theorem vault_has_selector_table : ∃ compiled,
    Program.generateWith vaultSelector ⟨[vault]⟩ = .ok [compiled] ∧
      SelectorTable vaultSelector vault compiled.abi (disassemble compiled.runtime) ∧
      ((disassemble compiled.runtime).filter (·.has .push4)).map Instruction.immediate =
        [[0, 0, 0, 1], [0, 0, 0, 2]] := by
  refine ⟨_, rfl, ?_⟩
  obtain ⟨⟨code, decoded, table⟩, -⟩ :=
    List.forall₂_cons.1 (@generated_code_has_selector_table vaultSelector ⟨[vault]⟩ _ rfl)
  rw [Hex.decode?_encode] at decoded
  cases decoded
  refine ⟨table, ?_⟩
  rw [table.selectors]
  decide

end Evm

end Covenant
