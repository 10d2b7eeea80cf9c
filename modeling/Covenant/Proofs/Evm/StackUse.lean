import Covenant.Proofs.Compilation.Independence
import Covenant.Proofs.Evm.CodeSize
import Covenant.Proofs.Evm.Dispatching
import Covenant.Proofs.Program.Printing
import Covenant.Proofs.Rules.Acceptance
import Covenant.Proofs.Rules.Relocation
import Mathlib

/-! How many words calls keep on the stack. The height of the stack is counted along the
instructions that a call goes through. It depends on the parameters of the function that serves the
call, since their values stay on the stack until the run ends. -/

namespace Covenant

namespace Evm

/-! The effect of instructions on the height of the stack. -/

namespace Opcode

def takes : Opcode → Nat
  | stop | callvalue | calldatasize | jumpdest | push1 | push2 | push3 | push4 => 0
  | iszero | calldataload | pop | jump | dup1 => 1
  | lt | eq | shr | mstore | jumpi | return_ | revert => 2
  | codecopy | dup3 => 3

def puts : Opcode → Nat
  | stop | codecopy | pop | mstore | jump | jumpi | jumpdest | return_ | revert => 0
  | lt | eq | iszero | shr | callvalue | calldataload | calldatasize => 1
  | push1 | push2 | push3 | push4 => 1
  | dup1 => 2
  | dup3 => 4

theorem effect_narrowestPush (value : UInt32) :
    (narrowestPush value).takes = 0 ∧ (narrowestPush value).puts = 1 := by
  unfold narrowestPush
  split_ifs <;> exact ⟨rfl, rfl⟩

end Opcode

theorem Machine.stack_of_jump {call : Call} {machine after : Machine} {target : Word}
    {stack : List Word} (jumped : machine.jump call target stack = .ok after) :
    after.stack = stack := by
  unfold jump at jumped
  split at jumped
  · cases jumped
    rfl
  · cases jumped

theorem Machine.length_of_execute {call : Call} {machine after : Machine} {opcode : Opcode}
    (executed : machine.execute call opcode = .ok after) :
    after.stack.length = machine.stack.length - opcode.takes + opcode.puts := by
  unfold execute at executed
  split at executed
  case h_12 stack target rest isStack =>
    rw [stack_of_jump executed, isStack]
    rfl
  case h_13 stack target condition rest isStack =>
    split at executed
    · cases executed
      rw [isStack]
      rfl
    · rw [stack_of_jump executed, isStack]
      rfl
  all_goals
    cases executed <;> simp [next, push, Opcode.takes, Opcode.puts, *]

/-- The height of the stack after an instruction. -/
def Instr.lift (instr : Instr) (height : Nat) : Nat :=
  height - instr.opcode.takes + instr.opcode.puts

@[simp] theorem Instr.lift_op (opcode : Opcode) (height : Nat) :
    (Instr.op opcode).lift height = height - opcode.takes + opcode.puts := rfl

@[simp] theorem Instr.lift_push (value : UInt32) (height : Nat) :
    (Instr.push value).lift height = height + 1 := by
  obtain ⟨takes, puts⟩ := Opcode.effect_narrowestPush value
  rw [lift, opcode, takes, puts, Nat.sub_zero]

@[simp] theorem Instr.lift_pushFixed (selector : UInt32) (height : Nat) :
    (Instr.pushFixed .push4 selector).lift height = height + 1 := rfl

@[simp] theorem Instr.lift_pushLabel (label height : Nat) :
    (Instr.pushLabel label).lift height = height + 1 := rfl

@[simp] theorem Instr.lift_jumpDest (label height : Nat) :
    (Instr.jumpDest label).lift height = height := rfl

/-- The heights of the stack before the instructions of a path. -/
def heights : (height : Nat) → (path : List Instr) → List Nat
  | _, [] => []
  | height, instr :: path => height :: heights (instr.lift height) path

/-- A run that goes through a path has its heights. -/
theorem heights_of_passes {program path : List Instr} {layout : Layout} {call : Call}
    {machine : Machine} {states : List Machine} {outcome : Outcome}
    (begins : Begins program layout call.code) (passes : Machine.Passes call machine states outcome)
    (stands : List.Forall₂ (Machine.Before program) states path) :
    states.map (·.stack.length) = heights machine.stack.length path := by
  induction passes generalizing path with
  | last =>
      obtain ⟨instr, rest, _, none, rfl⟩ := List.forall₂_cons_left_iff.1 stands
      obtain rfl := List.forall₂_nil_left_iff.1 none
      rfl
  | @step machine after _ _ stepped _ induction =>
      obtain ⟨instr, rest, before, following, rfl⟩ := List.forall₂_cons_left_iff.1 stands
      obtain ⟨front, back, here, atFront⟩ := before
      obtain ⟨pc, stack, memory⟩ := machine
      obtain rfl : pc = codeSize front := atFront
      rw [step_at begins here] at stepped
      rw [List.map_cons, heights, induction following, Machine.length_of_execute stepped]
      rfl

/-! Paths on which the stack stays within a limit. -/

def Within (limit height : Nat) (path : List Instr) : Prop :=
  ∀ reached ∈ heights height path, reached ≤ limit

section

variable {limit height : Nat}

@[simp] theorem within_nil : Within limit height [] := by
  simp [Within, heights]

@[simp] theorem within_cons {instr : Instr} {path : List Instr} :
    Within limit height (instr :: path) ↔
      height ≤ limit ∧ Within limit (instr.lift height) path := by
  simp [Within, heights]

theorem within_append {front back : List Instr} :
    Within limit height (front ++ back) ↔ Within limit height front ∧
      Within limit (front.foldl (fun height instr => instr.lift height) height) back := by
  induction front generalizing height with
  | nil => simp
  | cons instr front induction => simp [induction, and_assoc]

end

namespace Dispatcher

variable {limit height : Nat}

theorem loads_succ (parameters : Nat) : loads (parameters + 1) =
    loads parameters ++ [.push (argumentOffset parameters), .op .calldataload] := by
  simp [loads, List.range_succ]

/-- Each parameter leaves a word on the stack. -/
theorem foldl_lift_loads (parameters : Nat) :
    (loads parameters).foldl (fun height instr => instr.lift height) height =
      height + parameters := by
  induction parameters with
  | zero => rfl
  | succ parameters induction =>
      rw [loads_succ, List.foldl_append, induction]
      simp [Opcode.takes, Opcode.puts, Nat.add_assoc]

theorem within_loads {parameters : Nat} (fits : height + parameters ≤ limit) :
    Within limit height (loads parameters) := by
  induction parameters with
  | zero => exact within_nil
  | succ parameters induction =>
      rw [loads_succ, within_append, foldl_lift_loads]
      simp only [within_cons, Instr.lift_push, within_nil, and_true]
      exact ⟨induction (by omega), by omega, by omega⟩

theorem within_finish {hasResult : Bool} :
    Within limit height (finish hasResult) ↔ height + (if hasResult then 2 else 0) ≤ limit := by
  cases hasResult with
  | false => simp [finish]
  | true =>
      simp [finish, Opcode.takes, Opcode.puts]
      omega

theorem within_refuse (room : height + 2 ≤ limit) : Within limit height refuse := by
  simp [refuse, Opcode.takes, Opcode.puts]
  omega

end Dispatcher

/-- The words on the stack when it is highest in the stub of a function, if a call gets past the
guard: the selector, the arguments, and offset and value of a result. -/
def stackUse (function : Function) : Nat :=
  1 + function.parameters.length + if function.returns.isSome then 2 else 0

namespace Dispatcher

variable {limit : Nat}

/-- The words below the limit of four are needed by the comparisons and the guard anyway. -/
theorem within_stubPath (room : 4 ≤ limit) {count index : Nat} {function : Function}
    {value : Word} :
    Within limit 1 (stubPath count function index value) ↔
      (function.modifiers.payable = true ∨ value = 0 → stackUse function ≤ limit) := by
  have behind : Within limit 1
      (loads function.parameters.length ++ finish function.returns.isSome) ↔
        stackUse function ≤ limit := by
    rw [within_append, foldl_lift_loads, within_finish, stackUse]
    exact and_iff_right_of_imp fun fits => within_loads (by omega)
  have guarded (zero : value = 0) : Within limit 1 (guardPath count index value
      (loads function.parameters.length ++ finish function.returns.isSome)) ↔
        stackUse function ≤ limit := by
    rw [guardPath, if_pos zero]
    simp only [List.cons_append, List.nil_append, within_cons, Instr.lift_op, Instr.lift_pushLabel,
      Instr.lift_jumpDest, Opcode.takes, Opcode.puts, behind]
    omega
  have refused (nonzero : value ≠ 0) : Within limit 1 (guardPath count index value
      (loads function.parameters.length ++ finish function.returns.isSome)) := by
    rw [guardPath, if_neg nonzero]
    simp only [List.cons_append, List.nil_append, within_cons, Instr.lift_op, Instr.lift_pushLabel,
      Opcode.takes, Opcode.puts]
    exact ⟨by omega, by omega, by omega, by omega, by omega, within_refuse room⟩
  have opened : 1 ≤ limit := by omega
  rw [stubPath, within_cons, Instr.lift_jumpDest, and_iff_right opened]
  cases function.modifiers.payable with
  | true => simpa using behind
  | false =>
      by_cases zero : value = 0
      · simpa [zero] using guarded zero
      · refine iff_of_true (refused zero) fun accepted => ?_
        rcases accepted with payable | isZero
        · cases payable
        · exact absurd isZero zero

theorem within_comparisonPath (room : 4 ≤ limit) {select : String → Selector} {count : Nat}
    {selector : Selector} {value : Word} (index : Nat) (functions : List Function) :
    Within limit 1 (comparisonPath select count selector value index functions) ↔
      ∀ function ∈ functions.find? fun function => select function.signature == selector,
        function.modifiers.payable = true ∨ value = 0 → stackUse function ≤ limit := by
  induction functions generalizing index with
  | nil =>
      have refused : Within limit 1 refuse := within_refuse (by omega)
      simp [comparisonPath, refused]
      omega
  | cons function functions induction =>
      have compared : Within limit 1 (comparison (select function.signature) index) := by
        simp [comparison, Opcode.takes, Opcode.puts]
        omega
      rw [comparisonPath, within_append, and_iff_right compared]
      change Within limit 1 _ ↔ _
      by_cases same : select function.signature = selector
      · simp [same, within_stubPath room]
      · simp [same, induction]

end Dispatcher

/-- The function that a call is served by: the first with its selector, if it may take the value. -/
def served? (select : String → Selector) (contract : Contract) (data : List UInt8)
    (value : Word) : Option Function :=
  if data = [] then none
  else
    (contract.callable.find? fun function =>
      select function.signature == Selector.ofBytes (window data 0 4)).filter
        fun function => function.modifiers.payable || value == 0

theorem Dispatcher.within_path {limit : Nat} (room : 4 ≤ limit) {select : String → Selector}
    {contract : Contract} {data : List UInt8} {value : Word} :
    Within limit 0 (path select contract.callable data value) ↔
      ∀ function ∈ served? select contract data value, stackUse function ≤ limit := by
  have opened : Within limit 0 [.push 0x80, .push 0x40, .op .mstore, .op .calldatasize, .op .iszero,
      .pushLabel (noData contract.callable.length), .op .jumpi] := by
    simp [Opcode.takes, Opcode.puts]
    omega
  rw [path, within_append, and_iff_right opened, served?]
  by_cases empty : data = []
  · simp [empty, Opcode.takes, Opcode.puts]
  · have loaded : Within limit 0 [.push 0, .op .calldataload, .push 0xE0, .op .shr] := by
      simp [Opcode.takes, Opcode.puts]
      omega
    rw [if_neg empty, if_neg empty]
    change Within limit 0 _ ↔ _
    rw [within_append, and_iff_right loaded]
    refine (within_comparisonPath room 0 contract.callable).trans ?_
    simp only [Option.mem_filter_iff, Bool.or_eq_true, beq_iff_eq, and_imp]

theorem answer_ne_faulted (select : String → Selector) (contract : Contract) (abi : List Abi.Entry)
    (data : List UInt8) (value : Word) (fault : Fault) :
    answer select contract abi data value ≠ .faulted fault := by
  unfold answer answerOf
  split_ifs
  · simp
  · split
    · simp
    · split_ifs <;> simp

/-- What the run of a call does with the stack. The limit leaves room for the words that finding the
function takes. -/
theorem stack_of_runtimeCode {select : String → Selector} {contract : Contract} {code : List UInt8}
    (assembled : runtimeCodeWith select contract = .ok code) (data : CallData) (value : Word)
    {limit : Nat} (room : 4 ≤ limit) :
    (∀ machine, Machine.Reachable ⟨code, data, value⟩ machine →
      machine.step ⟨code, data, value⟩ ≠ .error (.faulted .stackUnderflow)) ∧
    ((∀ machine, Machine.Reachable ⟨code, data, value⟩ machine → machine.stack.length ≤ limit) ↔
      ∀ function ∈ served? select contract data.bytes value, stackUse function ≤ limit) := by
  have image : Image _ _ (Call.code ⟨code, data, value⟩) :=
    Dispatcher.image_of_runtimeCode assembled
  obtain ⟨states, passes, stands⟩ := runsFrom_runtimeCode assembled data value [] rfl
  change Machine.Passes _ .start _ _ at passes
  simp only [passes.reachable_iff]
  constructor
  · intro machine member underflow
    rcases passes.step_of_mem member with ⟨after, _, stepped⟩ | ended
    · rw [stepped] at underflow
      cases underflow
    · rw [ended] at underflow
      exact answer_ne_faulted _ _ _ _ _ _ (Except.error.inj underflow)
  · rw [← Dispatcher.within_path room, Within]
    have counted : states.map (·.stack.length) = heights 0 _ :=
      heights_of_passes image.begins passes stands
    rw [← counted, List.forall_mem_map]

/-- Whatever is compiled, no call takes words from the stack that are not there. The stack stays
within 1024 words exactly if the function that serves the call has few enough parameters for it. -/
theorem compiled_code_stack_use {limits : Limits} {source : String} {outputs : List Compiled}
    (compiled : compile limits source = .ok outputs) :
    ∃ program, Program.parse limits source = .ok program ∧
      List.Forall₂ (fun contract output => ∀ (data : CallData) (value : Word),
        (∀ machine, Machine.Reachable ⟨output.runtime, data, value⟩ machine →
          machine.step ⟨output.runtime, data, value⟩ ≠ .error (.faulted .stackUnderflow)) ∧
        ((∀ machine, Machine.Reachable ⟨output.runtime, data, value⟩ machine →
            machine.stack.length ≤ 1024) ↔
          ∀ function ∈ served? Selector.ofSignature contract data.bytes value,
            stackUse function ≤ 1024)) program.contracts outputs := by
  obtain ⟨program, parsed, _, generated⟩ := compile_eq_ok_iff.1 compiled
  refine ⟨program, parsed, List.Forall₂.imp ?_ (mapM_eq_ok_iff.1 generated)⟩
  intro contract output isOutput data value
  exact stack_of_runtimeCode (runtimeCode_of_generateWith isOutput).1 data value (by decide)

end Evm

/-! A function with many parameters. -/

open Token (Shape)

theorem Program.check_of_wellFormed {program : Program} (wellFormed : program.WellFormed) :
    program.check = .ok () := by
  cases checked : program.check with
  | ok => rfl
  | error error =>
      exact absurd wellFormed (program.judges_check.rejected error checked).not_wellFormed

/-- A text that shows a program is compiled if the program keeps the rules and is small. -/
theorem compile_of_renders {limits : Limits} {source : String} {written : List Token}
    {program : Program} (derives : Program.Derives written program)
    (renders : Token.Renders source.toList program.shapes)
    (fits : ∀ contract ∈ program.contracts, contract.Fits limits.depth)
    (short : source.utf8ByteSize ≤ limits.sourceBytes) (wellFormed : program.WellFormed)
    (small : ∀ contract ∈ program.contracts, contract.codeSize ≤ Evm.maxJumpTarget) :
    ∃ again outputs, Program.parse limits source = .ok again ∧ again.unplaced = program.unplaced ∧
      compile limits source = .ok outputs ∧ program.generate = .ok outputs := by
  obtain ⟨again, parsed, same⟩ := Program.parse_of_renders derives renders fits short
  have checked : again.check = .ok () := by
    have moved := (again.check_relocate fun _ => .start).symm
    change _ = again.unplaced.check at moved
    rw [same, Program.unplaced, Program.check_relocate, Program.check_of_wellFormed wellFormed]
      at moved
    cases result : again.check with
    | ok => rfl
    | error error =>
        rw [result] at moved
        cases moved
  have generated : again.generate = program.generate := by
    have moved := (again.generateWith_relocate (fun _ => .start) Selector.ofSignature).symm
    change again.generate = again.unplaced.generateWith _ at moved
    rw [moved, same, Program.unplaced, Program.generateWith_relocate, Program.generate]
  have succeeded : ∃ outputs, program.generate = .ok outputs := by
    cases result : program.generate with
    | ok outputs => exact ⟨outputs, rfl⟩
    | error error =>
        obtain ⟨contract, member, failed⟩ := exists_of_mapM_eq_error result
        obtain ⟨output, succeeded, _⟩ :=
          Contract.generateWith_of_le Selector.ofSignature (small contract member)
        rw [succeeded] at failed
        cases failed
  obtain ⟨outputs, isOutput⟩ := succeeded
  have compiled := compile_eq_ok_iff.2 ⟨again, parsed, checked, generated.trans isOutput⟩
  exact ⟨again, outputs, parsed, same, compiled, isOutput⟩

theorem utf8ByteSize_write_le {shapes : List Shape} {bound : Nat}
    (bounded : ∀ shape ∈ shapes, shape.text.utf8ByteSize ≤ bound) :
    (Shape.write shapes).utf8ByteSize ≤ (bound + 1) * shapes.length := by
  induction shapes with
  | nil => simp [Shape.write]
  | cons shape shapes induction =>
      obtain ⟨first, rest⟩ := List.forall_mem_cons.1 bounded
      cases shapes with
      | nil =>
          have alone : Shape.write [shape] = shape.text := by simp [Shape.write]
          rw [alone, List.length_singleton]
          omega
      | cons next shapes =>
          have joined : Shape.write (shape :: next :: shapes) =
              shape.text ++ (" " ++ Shape.write (next :: shapes)) := by
            apply String.toList_injective
            simp [Token.toList_write_cons_cons]
          have blank : " ".utf8ByteSize = 1 := by decide
          have behind := induction rest
          rw [joined, String.utf8ByteSize_append, String.utf8ByteSize_append, blank,
            List.length_cons, Nat.mul_succ]
          omega

theorem length_commaSeparated_replicate_le (count : Nat) (item : List Shape) :
    (Shape.commaSeparated (List.replicate count item)).length ≤ count * (item.length + 1) := by
  induction count with
  | zero => simp [Shape.commaSeparated]
  | succ count induction =>
      cases count with
      | zero => simp [Shape.commaSeparated]
      | succ count =>
          simp only [Shape.commaSeparated, List.replicate_succ, List.intercalate_cons_cons,
            List.length_append, List.length_cons, List.length_nil, Nat.succ_mul] at induction ⊢
          omega

namespace Evm

/-- A function that takes so many flags. -/
def flags (parameters : Nat) : Function :=
  ⟨⟨"f", .start⟩, List.replicate parameters ⟨⟨"a", .start⟩, .named "bool", none⟩, none, .none, []⟩

def wide (parameters : Nat) : Program :=
  ⟨[⟨⟨"C", .start⟩, [], [flags parameters], []⟩]⟩

theorem derives_wide (parameters : Nat) : ∃ tokens, Program.Derives tokens (wide parameters) := by
  have typed : TypedName
      [(Shape.name "a").token, (Shape.sign .colon).token, (Shape.name "bool").token]
      ⟨"a", .start⟩ (.named "bool") :=
    .mk rfl rfl (.arrays (.name rfl (by decide)))
  have separated : ∃ tokens, Separated Parameter.Derives tokens (flags parameters).parameters := by
    induction parameters with
    | zero => exact ⟨[], .nil⟩
    | succ parameters induction =>
        obtain ⟨tokens, separated⟩ := induction
        exact ⟨_, .cons (.required typed) (Shape.kind_sign .comma) separated⟩
  obtain ⟨inner, separated⟩ := separated
  have body : Stmt.Derives .block
      ((Shape.sign .lbrace).token :: ([] ++ [(Shape.sign .rbrace).token])) [] :=
    .block rfl .nil rfl
  have function : Function.Derives ((Shape.word .def_).token :: (Shape.name "f").token ::
      (Shape.sign .lparen).token :: (inner ++ (Shape.sign .rparen).token :: ([] ++ ([] ++ _))))
      (flags parameters) :=
    .mk rfl rfl rfl separated rfl .none .none body
  have contract : Contract.Derives ((Shape.word .contract).token :: (Shape.name "C").token ::
      (Shape.sign .lbrace).token :: ((_ ++ []) ++ [(Shape.sign .rbrace).token]))
      ⟨⟨"C", .start⟩, [], [flags parameters], []⟩ :=
    .mk rfl rfl rfl (.function function .nil) rfl
  exact ⟨_ ++ [], .mk (.cons contract .nil) (by simp)⟩

theorem shapes_wide (parameters : Nat) : (wide parameters).shapes =
    [.word .contract, .name "C", .sign .lbrace, .word .def_, .name "f", .sign .lparen] ++
      Shape.commaSeparated
        (List.replicate parameters [.name "a", .sign .colon, .name "bool"]) ++
      [.sign .rparen, .sign .lbrace, .sign .rbrace, .sign .rbrace] := by
  simp [wide, flags, Program.shapes, Contract.shapes, Stmt.braced, Function.shapes,
    Modifiers.shapes, Parameter.shapes, Ident.typedShapes, Modifiers.none, Modifiers.has,
    TypeName.shapes]

theorem writable_wide (parameters : Nat) : Shape.Writable (wide parameters).shapes := by
  have contract : (Shape.name "C").Spelled := Shape.spelled_name (by decide) (by decide) (by decide)
  have function : (Shape.name "f").Spelled := Shape.spelled_name (by decide) (by decide) (by decide)
  have name : (Shape.name "a").Spelled := Shape.spelled_name (by decide) (by decide) (by decide)
  have type : (Shape.name "bool").Spelled := Shape.spelled_name (by decide) (by decide) (by decide)
  have parameter : Shape.Writable [.name "a", .sign .colon, .name "bool"] := by
    simp [name, type]
  have all : Shape.Writable (Shape.commaSeparated
      (List.replicate parameters [.name "a", .sign .colon, .name "bool"])) := by
    rw [Shape.writable_commaSeparated]
    intro item member
    obtain rfl := List.eq_of_mem_replicate member
    exact parameter
  rw [shapes_wide]
  simp [contract, function, all]

theorem utf8ByteSize_wide_le (parameters : Nat) :
    (wide parameters).print.utf8ByteSize ≤ 9 * (10 + 4 * parameters) := by
  have inside := length_commaSeparated_replicate_le parameters
    [.name "a", .sign .colon, .name "bool"]
  have bounded : ∀ shape ∈ (wide parameters).shapes, shape.text.utf8ByteSize ≤ 8 := by
    rw [shapes_wide, List.forall_mem_append, List.forall_mem_append,
      Shape.forall_mem_commaSeparated (by decide)]
    refine ⟨⟨by decide, fun item member => ?_⟩, by decide⟩
    obtain rfl := List.eq_of_mem_replicate member
    decide
  refine (utf8ByteSize_write_le bounded).trans (Nat.mul_le_mul_left 9 ?_)
  rw [shapes_wide]
  simp only [List.length_append, List.length_cons, List.length_nil] at inside ⊢
  omega

theorem wellFormed_wide (parameters : Nat) : (wide parameters).WellFormed := by
  intro contract isContract
  obtain rfl := List.mem_singleton.1 isContract
  refine ⟨List.nodup_nil, by simp, fun function isFunction => ?_⟩
  obtain rfl := List.mem_singleton.1 isFunction
  constructor
  case constructor_returns => exact fun _ => rfl
  case owner => simp [flags, Modifiers.none]
  case mutability => simp [flags, Modifiers.none]
  case types =>
    intro parameter member
    obtain rfl := List.eq_of_mem_replicate member
    exact TypeName.isSupported_iff.1 (by decide)
  case defaults =>
    intro parameter member
    obtain rfl := List.eq_of_mem_replicate member
    simp
  case body =>
    intro counters stmt occurs
    cases occurs with
    | here member => cases member
    | inside member => cases member

theorem compile_wide {parameters : Nat} (few : parameters ≤ 8192) : ∃ again outputs,
    Program.parse {} (wide parameters).print = .ok again ∧ again.unplaced = wide parameters ∧
      compile {} (wide parameters).print = .ok outputs ∧
      (wide parameters).generate = .ok outputs := by
  obtain ⟨_, derives⟩ := derives_wide parameters
  have renders := Token.renders_write (writable_wide parameters)
  have size := utf8ByteSize_wide_le parameters
  have short : (wide parameters).print.utf8ByteSize ≤ 1048576 := by omega
  have fits : ∀ contract ∈ (wide parameters).contracts, contract.Fits 256 := by
    intro contract isContract
    obtain rfl := List.mem_singleton.1 isContract
    refine ⟨by simp, by simp, fun function isFunction => ?_⟩
    obtain rfl := List.mem_singleton.1 isFunction
    refine ⟨fun parameter member => ?_, by simp [flags]⟩
    obtain rfl := List.eq_of_mem_replicate member
    exact ⟨Nat.zero_le _, by simp⟩
  have small : ∀ contract ∈ (wide parameters).contracts, contract.codeSize ≤ maxJumpTarget := by
    intro contract isContract
    obtain rfl := List.mem_singleton.1 isContract
    have bound := (flags parameters).codeSize_le
    have callable : Contract.callable ⟨⟨"C", .start⟩, [], [flags parameters], []⟩ =
        [flags parameters] := rfl
    have length : (flags parameters).parameters.length = parameters := List.length_replicate
    rw [Contract.codeSize, callable, List.map_singleton, List.sum_singleton, maxJumpTarget]
    omega
  obtain ⟨again, outputs, parsed, same, compiled, generated⟩ :=
    @compile_of_renders {} _ _ _ derives renders fits short (wellFormed_wide parameters) small
  refine ⟨again, outputs, parsed, same.trans ?_, compiled, generated⟩
  simp [wide, flags, Program.unplaced, Program.relocate, Contract.relocate, Function.relocate,
    Ident.relocate, Parameter.relocate]

theorem stackUse_relocate (move : Position → Position) (function : Function) :
    stackUse (function.relocate move) = stackUse function := by
  have parameters : (function.relocate move).parameters.length = function.parameters.length :=
    List.length_map _
  rw [stackUse, stackUse, parameters]
  rfl

theorem stackUse_flags (parameters : Nat) : stackUse (flags parameters) = parameters + 1 := by
  simp [stackUse, flags, Nat.add_comm]

theorem served?_ofSelector {select : String → Selector} {contract : Contract} {function : Function}
    {others : List Function} (first : contract.callable = function :: others) :
    served? select contract (CallData.ofSelector (select function.signature)).bytes 0 =
      some function := by
  have nonempty : (CallData.ofSelector (select function.signature)).bytes ≠ [] :=
    List.ne_nil_of_length_eq_add_one (length_bigEndian _ 4)
  rw [served?, if_neg nonempty, selector_ofSelector, first]
  simp

theorem mem_of_served? {select : String → Selector} {contract : Contract} {data : List UInt8}
    {value : Word} {function : Function} (served : function ∈ served? select contract data value) :
    function ∈ contract.functions := by
  rw [served?] at served
  split at served
  · cases served
  · have found := (Option.mem_filter_iff.1 served).1
    exact List.mem_of_mem_filter (List.mem_of_find?_eq_some found)

/-- With 1024 parameters the words of a call are one too many. -/
theorem wide_exceeds_stack_limit : ∃ output,
    compile {} (wide 1024).print = .ok [output] ∧
      ∃ (data : CallData) (value : Word) (machine : Machine),
        Machine.Reachable ⟨output.runtime, data, value⟩ machine ∧ 1024 < machine.stack.length := by
  obtain ⟨_, outputs, _, _, compiled, generated⟩ := @compile_wide 1024 (by decide)
  obtain ⟨output, _, isOutput, none, rfl⟩ :=
    List.forall₂_cons_left_iff.1 (mapM_eq_ok_iff.1 generated)
  obtain rfl := List.forall₂_nil_left_iff.1 none
  let data := CallData.ofSelector (Selector.ofSignature (flags 1024).signature)
  have served : served? Selector.ofSignature ⟨⟨"C", .start⟩, [], [flags 1024], []⟩ data.bytes 0 =
      some (flags 1024) :=
    served?_ofSelector rfl
  have room : 4 ≤ 1024 := by decide
  obtain ⟨_, use⟩ := stack_of_runtimeCode (runtimeCode_of_generateWith isOutput).1 data 0 room
  by_contra within
  have fits := use.1 (fun machine reachable => Nat.le_of_not_lt fun exceeds =>
    within ⟨output, compiled, data, 0, machine, reachable, exceeds⟩) _ served
  rw [stackUse_flags] at fits
  omega

/-- One parameter less is served within the limit. -/
theorem wide_within_stack_limit : ∃ program outputs,
    compile {} (wide 1023).print = .ok outputs ∧ program.unplaced = wide 1023 ∧
      Program.parse {} (wide 1023).print = .ok program ∧
      List.Forall₂ (fun _ output => ∀ (data : CallData) (value : Word) (machine : Machine),
        Machine.Reachable ⟨output.runtime, data, value⟩ machine →
          machine.step ⟨output.runtime, data, value⟩ ≠ .error (.faulted .stackUnderflow) ∧
            machine.stack.length ≤ 1024) program.contracts outputs := by
  obtain ⟨program, outputs, parsed, same, compiled, _⟩ := @compile_wide 1023 (by decide)
  obtain ⟨again, parsedAgain, use⟩ := compiled_code_stack_use compiled
  rw [parsed] at parsedAgain
  cases parsedAgain
  -- The functions of the program that was read differ from the printed one in their places only.
  have few : ∀ contract ∈ program.contracts, ∀ function ∈ contract.functions,
      stackUse function ≤ 1024 := by
    intro contract isContract function isFunction
    have contracts : program.contracts.map (Contract.relocate fun _ => .start) = _ :=
      congrArg Program.contracts same
    have moved := contracts ▸ List.mem_map_of_mem isContract
    have functions : contract.functions.map (Function.relocate fun _ => .start) = _ :=
      congrArg Contract.functions (List.mem_singleton.1 moved)
    have isFlags := List.mem_singleton.1 (functions ▸ List.mem_map_of_mem isFunction)
    rw [← stackUse_relocate fun _ => .start, isFlags, stackUse_flags]
  refine ⟨program, outputs, compiled, same, parsed, ?_⟩
  refine List.Forall₂.imp ?_ ((List.forall₂_and_left _ _).2 ⟨few, use⟩)
  intro contract output both data value machine reachable
  obtain ⟨few, use⟩ := both
  obtain ⟨noUnderflow, within⟩ := use data value
  refine ⟨noUnderflow machine reachable, within.2 (fun function served => ?_) machine reachable⟩
  exact few function (mem_of_served? served)

end Evm

end Covenant
