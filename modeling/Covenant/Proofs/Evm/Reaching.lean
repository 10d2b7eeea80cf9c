import Covenant.Proofs.Compilation.Independence
import Covenant.Proofs.Evm.SelectorTable
import Mathlib

/-! Which stubs calls get to. The first function with a selector takes all calls that give it, so
the stub of a function is run by some call exactly if no function before it has the same selector. -/

namespace Covenant.Evm

/-! Places in code. -/

/-- Instructions take up at least one byte, so an offset belongs to one of them only. -/
theorem eq_of_codeSize_eq {front front' back back' : List Instr} {instr instr' : Instr}
    (same : front ++ instr :: back = front' ++ instr' :: back')
    (size : codeSize front = codeSize front') : instr = instr' := by
  have positive (instr : Instr) : 0 < instr.size := by
    rw [Instr.size_eq]
    omega
  rcases List.append_eq_append_iff.1 same with ⟨between, rfl, rest⟩ | ⟨between, rfl, rest⟩
  · cases between with
    | nil => exact (List.cons.inj rest).1
    | cons first between =>
        have grown := positive first
        rw [codeSize_append, codeSize_cons] at size
        omega
  · cases between with
    | nil => exact (List.cons.inj rest).1.symm
    | cons first between =>
        have grown := positive first
        rw [codeSize_append, codeSize_cons] at size
        omega

/-- A label is reached exactly if it is on the path of the run. -/
theorem exists_reachable_iff {program path : List Instr} {layout : Layout} {call : Call}
    {outcome : Outcome} {label : Nat} (begins : Begins program layout call.code)
    (runs : RunsFrom program call program [] .empty path outcome)
    (bound : .jumpDest label ∈ program) :
    (∃ machine, Machine.Reachable call machine ∧ layout.offset? label = some machine.pc) ↔
      .jumpDest label ∈ path := by
  obtain ⟨states, passes, stands⟩ := runs [] rfl
  change Machine.Passes _ .start _ _ at passes
  simp only [passes.reachable_iff]
  obtain ⟨front, back, here⟩ := List.append_of_mem bound
  have placed := begins.placed here
  constructor
  · rintro ⟨machine, member, isPlace⟩
    obtain ⟨instr, inPath, before, _, there, pc⟩ := exists_of_forall₂ stands member
    have size : codeSize front = codeSize before := by
      rw [placed, pc] at isPlace
      exact Option.some.inj isPlace
    rwa [eq_of_codeSize_eq (here.symm.trans there) size]
  · intro inPath
    obtain ⟨machine, member, before, _, there, pc⟩ := exists_of_forall₂ stands.flip inPath
    exact ⟨machine, member, by rw [begins.placed there, pc]⟩

namespace Dispatcher

/-! The stubs on the path of a call. -/

section

variable {select : String → Selector} {count label : Nat} {value : Word}

theorem mem_stubPath (inside : label < count) {function : Function} {index : Nat} :
    .jumpDest label ∈ stubPath count function index value ↔ label = index := by
  have notLoaded (parameters : Nat) : .jumpDest label ∉ loads parameters := by
    simp [loads]
  have notFinished (hasResult : Bool) : .jumpDest label ∉ finish hasResult := by
    cases hasResult <;> simp [finish]
  have notGuarded : .jumpDest label ∉ guardPath count index value
      (loads function.parameters.length ++ finish function.returns.isSome) := by
    have other : label ≠ accepted count index := by
      unfold accepted
      omega
    rw [guardPath]
    split_ifs <;> simp [refuse, other, notLoaded, notFinished]
  rw [stubPath]
  split_ifs <;> simp [entry, notLoaded, notFinished, notGuarded]

/-- The path goes to the stub of the first function with the selector. -/
theorem mem_comparisonPath (inside : label < count) {selector : Selector} (index : Nat)
    (functions : List Function) :
    .jumpDest label ∈ comparisonPath select count selector value index functions ↔
      ∃ place, label = index + place ∧
        functions.findIdx? (fun function => select function.signature == selector) =
          some place := by
  induction functions generalizing index with
  | nil =>
      have other : label ≠ unmatched count := Nat.ne_of_lt inside
      simp [comparisonPath, refuse, other]
  | cons function functions induction =>
      have notCompared : .jumpDest label ∉ comparison (select function.signature) index := by
        simp [comparison]
      rw [comparisonPath, List.mem_append, or_iff_right notCompared, List.findIdx?_cons]
      by_cases same : select function.signature = selector
      · simp [same, mem_stubPath inside]
      · simp only [same, if_false, induction, beq_eq_false_iff_ne.2 same, Bool.false_eq_true,
          Option.map_eq_some_iff]
        constructor
        · rintro ⟨place, rfl, found⟩
          exact ⟨place + 1, by omega, place, found, rfl⟩
        · rintro ⟨_, rfl, place, found, rfl⟩
          exact ⟨place, by omega, found⟩

theorem mem_path {functions : List Function} {data : List UInt8}
    (inside : label < functions.length) :
    .jumpDest (entry label) ∈ path select functions data value ↔ data ≠ [] ∧
      functions.findIdx? (fun function =>
        select function.signature == Selector.ofBytes (window data 0 4)) = some label := by
  have other : label ≠ noData functions.length := by
    unfold noData
    omega
  rw [path]
  by_cases empty : data = []
  · simp [empty, entry, other]
  · simp [empty, entry, mem_comparisonPath inside]

end

/-- Some call gets to the stub of a function exactly if no function before it has its selector. -/
theorem exists_mem_path_iff {select : String → Selector} {functions : List Function} {index : Nat}
    (inside : index < functions.length) :
    (∃ (data : CallData) (value : Word),
      .jumpDest (entry index) ∈ path select functions data.bytes value) ↔
      ∀ function ∈ functions.take index,
        select function.signature ≠ select functions[index].signature := by
  simp only [mem_path inside, List.findIdx?_eq_some_iff_getElem, beq_iff_eq]
  constructor
  · rintro ⟨data, value, _, _, found, others⟩ function member
    obtain ⟨place, before, rfl⟩ := List.mem_take_iff_getElem.1 member
    rw [found]
    exact others place (by omega)
  · intro first
    let selector := select functions[index].signature
    have nonempty : (CallData.ofSelector selector).bytes ≠ [] :=
      List.ne_nil_of_length_eq_add_one (length_bigEndian _ 4)
    refine ⟨.ofSelector selector, 0, nonempty, inside, (selector_ofSelector _).symm, ?_⟩
    intro place before
    rw [selector_ofSelector]
    exact first _ (List.mem_take_iff_getElem.2 ⟨place, by omega, rfl⟩)

end Dispatcher

/-! Entries of the interface description. -/

/-- Different signatures of the functions of a contract have different selectors. -/
def SelectsApart (select : String → Selector) (contract : Contract) : Prop :=
  ∀ first ∈ contract.callable, ∀ second ∈ contract.callable,
    select first.signature = select second.signature → first.signature = second.signature

/-- What a caller can get to who knows the interface description of a contract. -/
structure EntriesReached (select : String → Selector) (contract : Contract) (output : Compiled) :
    Prop where
  /-- The code compares with different selectors if the description lists different signatures. -/
  selectors : (((disassemble output.runtime).filter (·.has .push4)).map
      Instruction.immediate).Nodup ↔
    ((output.abi.filter (·.kind == .function)).map Abi.Entry.signature).Nodup
  constructors : output.abi.countP (·.kind == .constructor) =
    contract.functions.countP Function.isConstructor
  /-- Some call runs the stub of a function unless an entry before its own has its signature. -/
  stubs : ∀ index entry, (output.abi.filter (·.kind == .function))[index]? = some entry →
    ((∃ (data : CallData) (value : Word) (machine : Machine),
      Machine.Reachable ⟨output.runtime, data, value⟩ machine ∧
        (Dispatcher.assembly select contract.callable).layout.offset? (Dispatcher.entry index) =
          some machine.pc) ↔
      entry.signature ∉
        ((output.abi.filter (·.kind == .function)).take index).map Abi.Entry.signature)

theorem countP_constructor_ofContract (contract : Contract) :
    (Abi.ofContract contract).countP (·.kind == .constructor) =
      contract.functions.countP Function.isConstructor := by
  have isConstructor (function : Function) :
      ((Abi.Entry.ofFunction function).kind == .constructor) = function.isConstructor := by
    rw [kind_ofFunction]
    cases function.isConstructor <;> rfl
  rw [Abi.ofContract, List.countP_map]
  simp only [Function.comp_def, isConstructor]

section

variable {select : String → Selector} {contract : Contract}

theorem bigEndian_selector_inj {left right : Selector}
    (same : bigEndian left.toNat 4 = bigEndian right.toNat 4) : left = right := by
  have data : CallData.ofSelector left = CallData.ofSelector right := by
    simp only [CallData.ofSelector, same]
  rw [← selector_ofSelector left, data, selector_ofSelector]

theorem nodup_selectors_iff (apart : SelectsApart select contract) :
    (contract.callable.map fun function => bigEndian (select function.signature).toNat 4).Nodup ↔
      (contract.callable.map Function.signature).Nodup := by
  have composed : (contract.callable.map fun function =>
      bigEndian (select function.signature).toNat 4) =
        (contract.callable.map Function.signature).map
          fun signature => bigEndian (select signature).toNat 4 := by
    rw [List.map_map]
    rfl
  rw [composed]
  refine ⟨List.Nodup.of_map _, fun distinct => distinct.map_on ?_⟩
  intro left isLeft right isRight same
  obtain ⟨first, isFirst, rfl⟩ := List.mem_map.1 isLeft
  obtain ⟨second, isSecond, rfl⟩ := List.mem_map.1 isRight
  exact apart first isFirst second isSecond (bigEndian_selector_inj same)

/-- A stub is reached exactly if no function before its own has the same signature. -/
theorem exists_reachable_entry_iff (apart : SelectsApart select contract) {code : List UInt8}
    (assembled : runtimeCodeWith select contract = .ok code) {index : Nat}
    (inside : index < contract.callable.length) :
    (∃ (data : CallData) (value : Word) (machine : Machine),
      Machine.Reachable ⟨code, data, value⟩ machine ∧
        (Dispatcher.assembly select contract.callable).layout.offset? (Dispatcher.entry index) =
          some machine.pc) ↔
      contract.callable[index].signature ∉
        (contract.callable.take index).map Function.signature := by
  have image := Dispatcher.image_of_runtimeCode assembled
  obtain ⟨front, back, here, _⟩ := Dispatcher.exists_entry select inside
  have bound : .jumpDest (Dispatcher.entry index) ∈ Dispatcher.instrs select contract.callable := by
    simp [here]
  have reached (data : CallData) (value : Word) := exists_reachable_iff image.begins
    (runsFrom_runtimeCode assembled data value) bound
  simp only [reached, Dispatcher.exists_mem_path_iff inside, List.mem_map, not_exists, not_and]
  refine forall₂_congr fun function before => not_congr ⟨?_, fun same => by rw [same]⟩
  exact apart function (List.mem_of_mem_take before) _ (List.getElem_mem inside)

theorem entriesReached_of_generateWith (apart : SelectsApart select contract) {output : Compiled}
    (generated : contract.generateWith select = .ok output) :
    EntriesReached select contract output := by
  have table := selectorTable_of_generateWith generated
  obtain ⟨assembled, isAbi⟩ := runtimeCode_of_generateWith generated
  constructor
  case selectors =>
    rw [table.selectors, isAbi, selectors_ofContract, signatures_ofContract,
      nodup_selectors_iff apart]
  case constructors => rw [isAbi, countP_constructor_ofContract]
  case stubs =>
    intro index entry isEntry
    rw [isAbi, functions_ofContract, List.getElem?_map, Option.map_eq_some_iff] at isEntry
    obtain ⟨function, isFunction, rfl⟩ := isEntry
    obtain ⟨inside, rfl⟩ := List.getElem?_eq_some_iff.1 isFunction
    have callable := (List.mem_filter.1 (List.getElem_mem inside)).2
    rw [exists_reachable_entry_iff apart assembled inside, isAbi, List.map_take, List.map_take,
      signatures_ofContract, signature_ofFunction (by simpa using callable)]

end

/-- Whatever is compiled, in a contract whose signatures have different selectors a function can be
called unless another one with its signature stands before it. Nothing keeps a source from declaring
such a function, or a second constructor. -/
theorem compiled_entries_reached {limits : Limits} {source : String} {outputs : List Compiled}
    (compiled : compile limits source = .ok outputs) :
    ∃ program, Program.parse limits source = .ok program ∧
      List.Forall₂ (fun contract output => SelectsApart Selector.ofSignature contract →
        EntriesReached Selector.ofSignature contract output) program.contracts outputs := by
  obtain ⟨program, parsed, _, generated⟩ := compile_eq_ok_iff.1 compiled
  refine ⟨program, parsed, List.Forall₂.imp ?_ (mapM_eq_ok_iff.1 generated)⟩
  intro contract output isOutput apart
  exact entriesReached_of_generateWith apart isOutput

/-! Declarations made twice. -/

def twinSource : String :=
  "contract C \x7b def constructor() \x7b \x7d def constructor() \x7b \x7d " ++
    "def f() \x7b \x7d def f() \x7b \x7d \x7d"

def twins : Contract :=
  ⟨⟨"C", ⟨1, 10⟩⟩, [], [⟨⟨"constructor", ⟨1, 18⟩⟩, [], none, .none, []⟩,
    ⟨⟨"constructor", ⟨1, 40⟩⟩, [], none, .none, []⟩, ⟨⟨"f", ⟨1, 62⟩⟩, [], none, .none, []⟩,
    ⟨⟨"f", ⟨1, 74⟩⟩, [], none, .none, []⟩], []⟩

theorem compile_twins : ∃ output, Program.parse ⟨96, 4⟩ twinSource = .ok ⟨[twins]⟩ ∧
    compile ⟨96, 4⟩ twinSource = .ok [output] ∧
      twins.generateWith Selector.ofSignature = .ok output := by
  have parsed : Program.parse ⟨96, 4⟩ twinSource = .ok ⟨[twins]⟩ := by cbv
  have checked : (⟨[twins]⟩ : Program).check = .ok () := by cbv
  have small : twins.codeSize ≤ maxJumpTarget := by decide +kernel
  obtain ⟨output, generated, _⟩ := Contract.generateWith_of_le Selector.ofSignature small
  refine ⟨output, parsed, compile_eq_ok_iff.2 ⟨_, parsed, checked, ?_⟩, generated⟩
  exact mapM_eq_ok_iff.2 (.cons generated .nil)

theorem selectsApart_twins : SelectsApart Selector.ofSignature twins := by
  have each : ∀ function ∈ twins.callable, function.signature = "f()" := by decide
  intro first isFirst second isSecond _
  rw [each first isFirst, each second isSecond]

/-- Of two functions with one signature the second is never run. Both constructors are listed. -/
theorem twins_not_all_reached : ∃ output,
    Program.parse ⟨96, 4⟩ twinSource = .ok ⟨[twins]⟩ ∧ compile ⟨96, 4⟩ twinSource = .ok [output] ∧
      SelectsApart Selector.ofSignature twins ∧
      ¬(((disassemble output.runtime).filter (·.has .push4)).map Instruction.immediate).Nodup ∧
      output.abi.countP (·.kind == .constructor) = 2 ∧
      (output.abi.filter (·.kind == .function)).length = 2 ∧
      ∀ (data : CallData) (value : Word) (machine : Machine),
        Machine.Reachable ⟨output.runtime, data, value⟩ machine →
          (Dispatcher.assembly Selector.ofSignature twins.callable).layout.offset?
            (Dispatcher.entry 1) ≠ some machine.pc := by
  obtain ⟨output, parsed, compiled, generated⟩ := compile_twins
  have reached := entriesReached_of_generateWith selectsApart_twins generated
  have isAbi := (runtimeCode_of_generateWith generated).2
  refine ⟨output, parsed, compiled, selectsApart_twins, ?_, ?_, ?_, ?_⟩
  · rw [reached.selectors, isAbi]
    decide
  · rw [reached.constructors]
    decide
  · rw [isAbi]
    decide
  · have stubs := reached.stubs 1
    rw [isAbi] at stubs
    have never := (stubs _ rfl).not.2 (by decide)
    intro data value machine reachable isPlace
    exact never ⟨data, value, machine, reachable, isPlace⟩

theorem twins_first_reached : ∃ output,
    compile ⟨96, 4⟩ twinSource = .ok [output] ∧ SelectsApart Selector.ofSignature twins ∧
      EntriesReached Selector.ofSignature twins output ∧
      ∃ (data : CallData) (value : Word) (machine : Machine),
        Machine.Reachable ⟨output.runtime, data, value⟩ machine ∧
          (Dispatcher.assembly Selector.ofSignature twins.callable).layout.offset?
            (Dispatcher.entry 0) = some machine.pc := by
  obtain ⟨output, parsed, compiled, generated⟩ := compile_twins
  obtain ⟨program, parsedAgain, all⟩ := compiled_entries_reached compiled
  rw [parsed] at parsedAgain
  cases parsedAgain
  have reached := (List.forall₂_cons.1 all).1 selectsApart_twins
  have stubs := reached.stubs 0
  rw [(runtimeCode_of_generateWith generated).2] at stubs
  exact ⟨output, compiled, selectsApart_twins, reached, (stubs _ rfl).2 (by decide)⟩

end Covenant.Evm
