import Mathlib.Tactic.Ring
import Covenant.Proofs.Evm.Assembling

/-! Running assembled code, instruction by instruction. What a run does from some place on is said
about the instructions that stand there and those it goes through, not about bytes and offsets. -/

namespace Covenant.Evm

/-! Numbers as bytes. -/

/-- The number that bytes spell, the highest first. -/
def natOfBytes (bytes : List UInt8) : Nat :=
  bytes.foldl (fun value byte => value * 256 + byte.toNat) 0

theorem foldl_bytes (start : Nat) (bytes : List UInt8) :
    bytes.foldl (fun value byte => value * 256 + byte.toNat) start =
      start * 256 ^ bytes.length + natOfBytes bytes := by
  unfold natOfBytes
  induction bytes generalizing start with
  | nil => simp
  | cons byte bytes induction =>
      rw [List.foldl_cons, List.foldl_cons, induction, induction (0 * 256 + byte.toNat),
        List.length_cons, pow_succ]
      ring

theorem natOfBytes_cons (byte : UInt8) (bytes : List UInt8) :
    natOfBytes (byte :: bytes) = byte.toNat * 256 ^ bytes.length + natOfBytes bytes := by
  change bytes.foldl _ (0 * 256 + byte.toNat) = _
  rw [foldl_bytes, Nat.zero_mul, Nat.zero_add]

theorem natOfBytes_append (left right : List UInt8) :
    natOfBytes (left ++ right) = natOfBytes left * 256 ^ right.length + natOfBytes right := by
  unfold natOfBytes
  rw [List.foldl_append, foldl_bytes]
  rfl

theorem natOfBytes_lt (bytes : List UInt8) : natOfBytes bytes < 256 ^ bytes.length := by
  induction bytes with
  | nil => simp [natOfBytes]
  | cons byte bytes induction =>
      have byteBound : byte.toNat < 256 := byte.toNat_lt
      have scaled : (byte.toNat + 1) * 256 ^ bytes.length ≤ 256 * 256 ^ bytes.length :=
        Nat.mul_le_mul_right _ byteBound
      rw [natOfBytes_cons, List.length_cons, pow_succ]
      rw [Nat.add_mul, Nat.one_mul] at scaled
      omega

theorem natOfBytes_bigEndian (value width : Nat) :
    natOfBytes (bigEndian value width) = value % 256 ^ width := by
  induction width with
  | zero => simp [bigEndian, natOfBytes, Nat.mod_one]
  | succ width induction =>
      have digit : (UInt8.ofNat (value >>> (8 * width))).toNat = value / 256 ^ width % 256 := by
        rw [UInt8.toNat_ofNat', Nat.shiftRight_eq_div_pow, pow_mul]
        norm_num
      rw [bigEndian, natOfBytes_cons, induction, length_bigEndian, digit, pow_succ, Nat.mod_mul,
        Nat.mul_comm, Nat.add_comm]

@[simp] theorem toNat_ofBytes (bytes : List UInt8) :
    (Word.ofBytes bytes).toNat = natOfBytes bytes % 2 ^ 256 :=
  BitVec.toNat_ofNat _ _

@[simp] theorem length_window (bytes : List UInt8) (offset size : Nat) :
    (window bytes offset size).length = size := by
  simp [window]

theorem window_append (bytes : List UInt8) (offset first second : Nat) :
    window bytes offset (first + second) =
      window bytes offset first ++ window bytes (offset + first) second := by
  unfold window
  rw [List.range_add, List.map_append, List.map_map]
  simp [Function.comp_def, Nat.add_assoc]

theorem window_middle (before middle after : List UInt8) :
    window (before ++ middle ++ after) before.length middle.length = middle := by
  apply List.ext_getElem
  · simp
  · intro index _ inside
    simp only [window, List.getElem_map, List.getElem_range]
    rw [List.append_assoc, List.getElem?_append_right (Nat.le_add_right _ _),
      Nat.add_sub_cancel_left, List.getElem?_append_left inside, List.getElem?_eq_getElem inside]
    rfl

/-! Single instructions. -/

theorem execute_push (call : Call) (machine : Machine) {opcode : Opcode}
    (isPush : opcode.immediateLen ≠ 0) :
    machine.execute call opcode = .ok (machine.push call opcode.immediateLen) := by
  cases opcode <;> first | rfl | exact absurd rfl isPush

section

variable {program front back : List Instr} {layout : Layout} {call : Call} {instr : Instr}
variable {stack : List Word} {memory : Memory}

theorem step_at (begins : Begins program layout call.code)
    (here : program = front ++ instr :: back) :
    Machine.step call ⟨codeSize front, stack, memory⟩ =
      Machine.execute call ⟨codeSize front, stack, memory⟩ instr.opcode := by
  obtain ⟨before, chunk, after, joined, beforeLength, encoded⟩ := begins.split here
  obtain ⟨immediate, rfl, -⟩ :=
    Instr.encode_whole (begins.wellFormed instr (by simp [here])) encoded
  have fetched : call.code[codeSize front]? = some instr.opcode.byte := by
    rw [joined, ← beforeLength, List.getElem?_append_right (Nat.le_refl _)]
    simp
  unfold Machine.step
  simp only [fetched]
  rw [Opcode.ofByte?_eq_some_iff.2 rfl]

/-- A push puts as much of its value on the stack as it was written with. -/
theorem step_push (begins : Begins program layout call.code)
    (here : program = front ++ instr :: back) {value : Nat}
    (isPush : instr.opcode.immediateLen ≠ 0)
    (encoded : instr.encode layout = .ok (Instr.encodePush instr.opcode value)) :
    Machine.step call ⟨codeSize front, stack, memory⟩ =
      .ok ⟨codeSize front + instr.size,
        BitVec.ofNat 256 (value % 256 ^ instr.opcode.immediateLen) :: stack, memory⟩ := by
  rw [step_at begins here, execute_push _ _ isPush]
  obtain ⟨before, chunk, after, joined, beforeLength, written⟩ := begins.split here
  rw [encoded] at written
  cases written
  have shown : window call.code (codeSize front + 1) instr.opcode.immediateLen =
      bigEndian value instr.opcode.immediateLen := by
    have middle := window_middle (before ++ [instr.opcode.byte])
      (bigEndian value instr.opcode.immediateLen) after
    simpa [joined, Instr.encodePush, beforeLength] using middle
  simp [Machine.push, Machine.next, shown, Word.ofBytes, ← natOfBytes_bigEndian, natOfBytes,
    Instr.size_eq]

end

/-! Runs. -/

theorem Machine.run_of_le {call : Call} {outcome : Outcome} {few steps : Nat} {machine : Machine}
    (ran : machine.run call few = some outcome) (within : few ≤ steps) :
    machine.run call steps = some outcome := by
  induction few generalizing steps machine with
  | zero => cases ran
  | succ few induction =>
      cases steps with
      | zero => cases within
      | succ steps =>
          rw [run] at ran ⊢
          cases stepped : machine.step call with
          | error last => simpa only [stepped] using ran
          | ok next =>
              simp only [stepped] at ran ⊢
              exact induction ran (Nat.le_of_succ_le_succ within)

theorem Call.Halts.unique {call : Call} {first second : Outcome} (halts : call.Halts first)
    (haltsToo : call.Halts second) : first = second := by
  obtain ⟨steps, ran⟩ := halts
  obtain ⟨others, ranToo⟩ := haltsToo
  have same := (Machine.run_of_le ran (Nat.le_max_left steps others)).symm.trans
    (Machine.run_of_le ranToo (Nat.le_max_right steps others))
  exact Option.some.inj same

namespace Machine

/-- A run from a state on passes through these states and ends with this outcome. -/
inductive Passes (call : Call) : Machine → List Machine → Outcome → Prop where
  | last {machine : Machine} {outcome : Outcome} :
      machine.step call = .error outcome → Passes call machine [machine] outcome
  | step {machine after : Machine} {states : List Machine} {outcome : Outcome} :
      machine.step call = .ok after → Passes call after states outcome →
        Passes call machine (machine :: states) outcome

namespace Passes

variable {call : Call} {first machine : Machine} {states : List Machine} {outcome : Outcome}

theorem run_eq (passes : Passes call first states outcome) :
    first.run call states.length = some outcome := by
  induction passes with
  | last stepped => simp only [List.length_singleton, run, stepped]
  | step stepped _ induction => simpa only [List.length_cons, run, stepped] using induction

theorem first_mem (passes : Passes call first states outcome) : first ∈ states := by
  cases passes <;> exact List.mem_cons_self ..

theorem step_of_mem (passes : Passes call first states outcome) (member : machine ∈ states) :
    (∃ after ∈ states, machine.step call = .ok after) ∨ machine.step call = .error outcome := by
  induction passes with
  | last stepped =>
      obtain rfl := List.mem_singleton.1 member
      exact .inr stepped
  | @step _ after _ _ stepped passes induction =>
      rcases List.mem_cons.1 member with rfl | member
      · exact .inl ⟨after, List.mem_cons_of_mem _ passes.first_mem, stepped⟩
      · rcases induction member with ⟨next, isState, stepped⟩ | ended
        · exact .inl ⟨next, List.mem_cons_of_mem _ isState, stepped⟩
        · exact .inr ended

theorem reachable_of_mem (passes : Passes call first states outcome)
    (reachable : Reachable call first) (member : machine ∈ states) : Reachable call machine := by
  induction passes with
  | last =>
      obtain rfl := List.mem_singleton.1 member
      exact reachable
  | step stepped _ induction =>
      rcases List.mem_cons.1 member with rfl | member
      · exact reachable
      · exact induction (reachable.step stepped) member

theorem reachable_iff (passes : Passes call .start states outcome) :
    Reachable call machine ↔ machine ∈ states := by
  constructor
  · intro reachable
    induction reachable with
    | start => exact passes.first_mem
    | step _ stepped member =>
        rcases passes.step_of_mem member with ⟨after, isState, ok⟩ | ended
        · rw [stepped] at ok
          cases ok
          exact isState
        · rw [stepped] at ended
          cases ended
  · exact passes.reachable_of_mem .start

end Passes

/-- The state stands before this instruction. -/
def Before (program : List Instr) (machine : Machine) (instr : Instr) : Prop :=
  ∃ front back, program = front ++ instr :: back ∧ machine.pc = codeSize front

end Machine

/-- A run that stands at `back` with this stack and memory goes through the instructions of `path`,
one after another, and ends with this outcome. -/
def RunsFrom (program : List Instr) (call : Call) (back : List Instr) (stack : List Word)
    (memory : Memory) (path : List Instr) (outcome : Outcome) : Prop :=
  ∀ front, program = front ++ back → ∃ states,
    Machine.Passes call ⟨codeSize front, stack, memory⟩ states outcome ∧
      List.Forall₂ (Machine.Before program) states path

section

variable {program back path : List Instr} {layout : Layout} {call : Call}
variable {stack stack' : List Word} {memory memory' : Memory} {outcome : Outcome}

theorem RunsFrom.halts (runs : RunsFrom program call program [] .empty path outcome) :
    call.Halts outcome := by
  obtain ⟨states, passes, _⟩ := runs [] rfl
  exact ⟨states.length, passes.run_eq⟩

theorem runsFrom_step {instr : Instr}
    (next : ∀ front, program = front ++ instr :: back →
      Machine.step call ⟨codeSize front, stack, memory⟩ =
        .ok ⟨codeSize front + instr.size, stack', memory'⟩)
    (runs : RunsFrom program call back stack' memory' path outcome) :
    RunsFrom program call (instr :: back) stack memory (instr :: path) outcome := by
  intro front here
  obtain ⟨states, passes, stands⟩ := runs (front ++ [instr]) (by simp [here])
  simp only [codeSize_append, codeSize_cons, codeSize_nil, Nat.add_zero] at passes
  exact ⟨_, .step (next front here) passes, .cons ⟨front, back, here, rfl⟩ stands⟩

theorem runsFrom_op (begins : Begins program layout call.code) {opcode : Opcode}
    (effect : ∀ pc, Machine.execute call ⟨pc, stack, memory⟩ opcode =
      .ok ⟨pc + 1, stack', memory'⟩)
    (runs : RunsFrom program call back stack' memory' path outcome) :
    RunsFrom program call (.op opcode :: back) stack memory (.op opcode :: path) outcome := by
  refine runsFrom_step ?_ runs
  intro front here
  have wellFormed : opcode.immediateLen = 0 :=
    begins.wellFormed (.op opcode) (by simp [here])
  rw [step_at begins here]
  simpa [Instr.opcode, Instr.size, wellFormed] using effect (codeSize front)

theorem runsFrom_last (begins : Begins program layout call.code) {opcode : Opcode}
    (effect : ∀ pc, Machine.execute call ⟨pc, stack, memory⟩ opcode = .error outcome) :
    RunsFrom program call (.op opcode :: back) stack memory [.op opcode] outcome := by
  intro front here
  have last : Machine.step call ⟨codeSize front, stack, memory⟩ = .error outcome := by
    rw [step_at begins here]
    exact effect (codeSize front)
  exact ⟨_, .last last, .cons ⟨front, back, here, rfl⟩ .nil⟩

/-! One rule for each opcode. -/

theorem runsFrom_jumpDest (begins : Begins program layout call.code) {label : Nat}
    (runs : RunsFrom program call back stack memory path outcome) :
    RunsFrom program call (.jumpDest label :: back) stack memory
      (.jumpDest label :: path) outcome := by
  refine runsFrom_step ?_ runs
  intro front here
  rw [step_at begins here]
  rfl

theorem runsFrom_dup1 (begins : Begins program layout call.code) {top : Word}
    (runs : RunsFrom program call back (top :: top :: stack) memory path outcome) :
    RunsFrom program call (.op .dup1 :: back) (top :: stack) memory (.op .dup1 :: path) outcome :=
  runsFrom_op begins (fun _ => rfl) runs

theorem runsFrom_pop (begins : Begins program layout call.code) {top : Word}
    (runs : RunsFrom program call back stack memory path outcome) :
    RunsFrom program call (.op .pop :: back) (top :: stack) memory (.op .pop :: path) outcome :=
  runsFrom_op begins (fun _ => rfl) runs

theorem runsFrom_iszero (begins : Begins program layout call.code) {top : Word}
    (runs : RunsFrom program call back (Word.ofBool (top == 0) :: stack) memory path outcome) :
    RunsFrom program call (.op .iszero :: back) (top :: stack) memory
      (.op .iszero :: path) outcome :=
  runsFrom_op begins (fun _ => rfl) runs

theorem runsFrom_eq (begins : Begins program layout call.code) {left right : Word}
    (runs : RunsFrom program call back (Word.ofBool (left == right) :: stack) memory path outcome) :
    RunsFrom program call (.op .eq :: back) (left :: right :: stack) memory
      (.op .eq :: path) outcome :=
  runsFrom_op begins (fun _ => rfl) runs

theorem runsFrom_shr (begins : Begins program layout call.code) {shift word : Word}
    (runs : RunsFrom program call back (Word.shr word shift :: stack) memory path outcome) :
    RunsFrom program call (.op .shr :: back) (shift :: word :: stack) memory
      (.op .shr :: path) outcome :=
  runsFrom_op begins (fun _ => rfl) runs

theorem runsFrom_callvalue (begins : Begins program layout call.code)
    (runs : RunsFrom program call back (call.value :: stack) memory path outcome) :
    RunsFrom program call (.op .callvalue :: back) stack memory (.op .callvalue :: path) outcome :=
  runsFrom_op begins (fun _ => rfl) runs

theorem runsFrom_calldatasize (begins : Begins program layout call.code)
    (runs : RunsFrom program call back (BitVec.ofNat 256 call.data.bytes.length :: stack) memory
      path outcome) :
    RunsFrom program call (.op .calldatasize :: back) stack memory
      (.op .calldatasize :: path) outcome :=
  runsFrom_op begins (fun _ => rfl) runs

theorem runsFrom_calldataload (begins : Begins program layout call.code) {offset : Word}
    (runs : RunsFrom program call back
      (Word.ofBytes (window call.data.bytes offset.toNat 32) :: stack) memory path outcome) :
    RunsFrom program call (.op .calldataload :: back) (offset :: stack) memory
      (.op .calldataload :: path) outcome :=
  runsFrom_op begins (fun _ => rfl) runs

theorem runsFrom_codecopy (begins : Begins program layout call.code) {target offset size : Word}
    (runs : RunsFrom program call back stack
      (memory.storeBytes target.toNat (window call.code offset.toNat size.toNat)) path outcome) :
    RunsFrom program call (.op .codecopy :: back) (target :: offset :: size :: stack) memory
      (.op .codecopy :: path) outcome :=
  runsFrom_op begins (fun _ => rfl) runs

theorem runsFrom_mstore (begins : Begins program layout call.code) {offset word : Word}
    (runs : RunsFrom program call back stack (memory.storeWord offset.toNat word) path outcome) :
    RunsFrom program call (.op .mstore :: back) (offset :: word :: stack) memory
      (.op .mstore :: path) outcome :=
  runsFrom_op begins (fun _ => rfl) runs

theorem runsFrom_stop (begins : Begins program layout call.code) :
    RunsFrom program call (.op .stop :: back) stack memory [.op .stop] .stopped :=
  runsFrom_last begins fun _ => rfl

theorem runsFrom_return (begins : Begins program layout call.code) {offset size : Word} :
    RunsFrom program call (.op .return_ :: back) (offset :: size :: stack) memory [.op .return_]
      (.returned (memory.slice offset.toNat size.toNat)) :=
  runsFrom_last begins fun _ => rfl

theorem runsFrom_revert (begins : Begins program layout call.code) {offset size : Word} :
    RunsFrom program call (.op .revert :: back) (offset :: size :: stack) memory [.op .revert]
      (.reverted (memory.slice offset.toNat size.toNat)) :=
  runsFrom_last begins fun _ => rfl

theorem lt_narrowestPush (value : UInt32) :
    value.toNat < 256 ^ (Opcode.narrowestPush value).immediateLen := by
  have bound := value.toNat_lt
  unfold Opcode.narrowestPush
  split
  · simp [Opcode.immediateLen]; omega
  · split
    · simp [Opcode.immediateLen]; omega
    · split
      · simp [Opcode.immediateLen]; omega
      · simp [Opcode.immediateLen]; omega

theorem narrowestPush_isPush (value : UInt32) :
    (Opcode.narrowestPush value).immediateLen ≠ 0 := by
  unfold Opcode.narrowestPush
  split
  · decide
  · split
    · decide
    · split <;> decide

theorem runsFrom_push (begins : Begins program layout call.code) {value : UInt32}
    (runs : RunsFrom program call back (BitVec.ofNat 256 value.toNat :: stack) memory path outcome) :
    RunsFrom program call (.push value :: back) stack memory (.push value :: path) outcome := by
  refine runsFrom_step ?_ runs
  intro front here
  rw [step_push begins here (narrowestPush_isPush value) rfl]
  simp [Instr.opcode, Nat.mod_eq_of_lt (lt_narrowestPush value)]

theorem runsFrom_pushFixed (begins : Begins program layout call.code) {opcode : Opcode}
    {value : UInt32}
    (runs : RunsFrom program call back
      (BitVec.ofNat 256 (value.toNat % 256 ^ opcode.immediateLen) :: stack) memory path outcome) :
    RunsFrom program call (.pushFixed opcode value :: back) stack memory
      (.pushFixed opcode value :: path) outcome := by
  refine runsFrom_step ?_ runs
  intro front here
  exact step_push begins here (begins.wellFormed (.pushFixed opcode value) (by simp [here])) rfl

/-- The offset of a label that is pushed somewhere fits two bytes. -/
theorem Begins.encode_pushLabel {code : List UInt8} {before target : List Instr} {label : Nat}
    (begins : Begins program layout code) (pushed : .pushLabel label ∈ program)
    (bound : program = before ++ .jumpDest label :: target) :
    codeSize before ≤ maxJumpTarget ∧
      (Instr.pushLabel label).encode layout = .ok (Instr.encodePush .push2 (codeSize before)) := by
  obtain ⟨front, back, here⟩ := List.append_of_mem pushed
  obtain ⟨_, chunk, _, -, -, encoded⟩ := begins.split here
  simp only [Instr.encode, begins.placed bound] at encoded ⊢
  split at encoded
  next small => exact ⟨small, if_pos small⟩
  next => cases encoded

theorem runsFrom_pushLabel (begins : Begins program layout call.code) {label : Nat}
    {before target : List Instr} (bound : program = before ++ .jumpDest label :: target)
    (runs : RunsFrom program call back (BitVec.ofNat 256 (codeSize before) :: stack) memory
      path outcome) :
    RunsFrom program call (.pushLabel label :: back) stack memory
      (.pushLabel label :: path) outcome := by
  refine runsFrom_step ?_ runs
  intro front here
  obtain ⟨small, encoded⟩ := begins.encode_pushLabel (by simp [here]) bound
  have kept : codeSize before % 256 ^ (Instr.pushLabel label).opcode.immediateLen =
      codeSize before :=
    Nat.mod_eq_of_lt (Nat.lt_succ_of_le small)
  rw [step_push begins here (fun none => nomatch none) encoded, kept]

/-- A conditional jump to a label goes on right behind it, or else at the label. -/
theorem runsFrom_branch (begins : Begins program layout call.code) {label : Nat}
    {before target : List Instr} {condition : Word}
    (bound : program = before ++ .jumpDest label :: target)
    (next : condition = 0 → RunsFrom program call back stack memory path outcome)
    (jump : condition ≠ 0 →
      RunsFrom program call (.jumpDest label :: target) stack memory path outcome) :
    RunsFrom program call (.pushLabel label :: .op .jumpi :: back) (condition :: stack) memory
      (.pushLabel label :: .op .jumpi :: path) outcome := by
  intro front here
  refine runsFrom_pushLabel begins bound ?_ front here
  by_cases zero : condition = 0
  · refine runsFrom_op begins ?_ (next zero)
    intro pc
    simp [Machine.execute, zero, Machine.next]
  · intro inner innerHere
    obtain ⟨states, passes, stands⟩ := jump zero before bound
    obtain ⟨small, -⟩ := begins.encode_pushLabel (by simp [here]) bound
    -- The word that was pushed is the whole offset, since labels are pushed with two bytes only.
    have offset : (BitVec.ofNat 256 (codeSize before)).toNat = codeSize before := by
      rw [BitVec.toNat_ofNat]
      apply Nat.mod_eq_of_lt
      have limit : maxJumpTarget < 2 ^ 256 := by decide
      omega
    have jumped : Machine.step call
        ⟨codeSize inner, BitVec.ofNat 256 (codeSize before) :: condition :: stack, memory⟩ =
          .ok ⟨codeSize before, stack, memory⟩ := by
      rw [step_at begins innerHere]
      simp only [Instr.opcode, Machine.execute, if_neg zero, Machine.jump, offset,
        begins.isJumpTarget bound, if_true]
    exact ⟨_, .step jumped passes, .cons ⟨inner, back, innerHere, rfl⟩ stands⟩

end

end Covenant.Evm
