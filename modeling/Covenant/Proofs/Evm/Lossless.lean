import Covenant.Proofs.Evm.Running
import Mathlib

/-! Reading any bytes as instructions loses nothing. The instructions of a code stand one behind the
other and make it up again. Only the last of them can lack some of the bytes that its opcode asks
for. -/

namespace Covenant.Evm

namespace Instruction

/-- The bytes of an instruction. A byte that is no opcode stands for itself. -/
def bytes (instruction : Instruction) : List UInt8 :=
  (instruction.opcode?.elim instruction.byte Opcode.byte) :: instruction.immediate

theorem bytes_eq (instruction : Instruction) :
    instruction.bytes = instruction.byte :: instruction.immediate := by
  rw [bytes, opcode?]
  cases known : Opcode.ofByte? instruction.byte with
  | none => rfl
  | some opcode => rw [Option.elim_some, Opcode.ofByte?_eq_some_iff.1 known]

theorem length_bytes (instruction : Instruction) :
    instruction.bytes.length = instruction.immediate.length + 1 := by
  rw [bytes_eq, List.length_cons]

end Instruction

theorem immediateLen_le (byte : UInt8) : immediateLen byte ≤ 4 := by
  unfold immediateLen
  cases Opcode.ofByte? byte with
  | none => exact Nat.zero_le 4
  | some opcode => cases opcode <;> decide

/-- The instructions of a code that starts at an offset. Each takes as many of the bytes behind it
as its opcode asks for, or all of them where these are fewer. -/
inductive Decoded : Nat → List UInt8 → List Instruction → Prop
  | nil {offset : Nat} : Decoded offset [] []
  | cons {offset : Nat} {byte : UInt8} {immediate rest : List UInt8}
      {instructions : List Instruction}
      (width : immediate.length ≤ immediateLen byte)
      (whole : rest ≠ [] → immediate.length = immediateLen byte)
      (behind : Decoded (offset + (immediate.length + 1)) rest instructions) :
      Decoded offset (byte :: (immediate ++ rest)) (⟨offset, byte, immediate⟩ :: instructions)

/-! The instructions that are read. -/

/-- Bytes that belong to an instruction already read are passed over, as far as there are any. -/
theorem disassembleFrom_drop (done : List Instruction) (offset skip : Nat) (code : List UInt8) :
    disassembleFrom done offset skip code =
      disassembleFrom done (offset + (code.take skip).length) 0 (code.drop skip) := by
  rcases Nat.le_total skip code.length with short | long
  · have skipped := disassembleFrom_skip done offset (code.take skip) (code.drop skip)
    rw [List.take_append_drop, List.length_take_of_le short] at skipped
    rw [skipped, List.length_take_of_le short]
  · rw [List.drop_eq_nil_of_le long, List.take_of_length_le long]
    have passed : ∀ skip offset, code.length ≤ skip →
        disassembleFrom done offset skip code = done.reverse := by
      clear long
      induction code with
      | nil => exact fun _ _ _ => by rw [disassembleFrom]
      | cons byte code induction =>
          intro skip offset long
          obtain ⟨fewer, rfl⟩ := Nat.exists_eq_add_of_lt long
          exact induction _ _ (by omega)
    rw [passed skip offset long, disassembleFrom]

theorem decoded_disassembleFrom (done : List Instruction) (offset : Nat) (code : List UInt8) :
    ∃ instructions, disassembleFrom done offset 0 code = done.reverse ++ instructions ∧
      Decoded offset code instructions := by
  induction length : code.length using Nat.strongRecOn generalizing done offset code with
  | ind size induction =>
      cases code with
      | nil => exact ⟨[], by rw [disassembleFrom, List.append_nil], .nil⟩
      | cons byte rest =>
          have parts := List.take_append_drop (immediateLen byte) rest
          obtain ⟨instructions, read, decoded⟩ := induction (rest.drop (immediateLen byte)).length
            (by rw [← length, List.length_drop, List.length_cons]; omega)
            (⟨offset, byte, rest.take (immediateLen byte)⟩ :: done)
            (offset + ((rest.take (immediateLen byte)).length + 1)) _ rfl
          refine ⟨⟨offset, byte, rest.take (immediateLen byte)⟩ :: instructions, ?_, ?_⟩
          · rw [disassembleFrom, disassembleFrom_drop, Nat.add_assoc, Nat.add_comm 1, read,
              List.reverse_cons, List.append_assoc]
            rfl
          · nth_rewrite 1 [← parts]
            refine .cons (List.length_take_le _ _) (fun more => ?_) decoded
            have longer : immediateLen byte < rest.length := by
              rwa [ne_eq, List.drop_eq_nil_iff, not_le] at more
            exact List.length_take_of_le longer.le

theorem decoded_disassemble (code : List UInt8) : Decoded 0 code (disassemble code) := by
  obtain ⟨instructions, read, decoded⟩ := decoded_disassembleFrom [] 0 code
  rwa [disassemble, read]

/-! What follows for the bytes, the offsets and the numbers. -/

namespace Decoded

variable {offset : Nat} {code : List UInt8} {instructions : List Instruction}

theorem flatMap_bytes (decoded : Decoded offset code instructions) :
    instructions.flatMap Instruction.bytes = code := by
  induction decoded with
  | nil => rfl
  | cons _ _ _ induction =>
      rw [List.flatMap_cons, induction, Instruction.bytes_eq, List.cons_append]

theorem length_le (decoded : Decoded offset code instructions) :
    instructions.length ≤ code.length := by
  induction decoded with
  | nil => exact Nat.le_refl 0
  | cons _ _ _ induction =>
      rw [List.length_cons, List.length_cons, List.length_append]
      omega

/-- Each instruction is read from the code that is left behind those before it. -/
theorem split {front back : List Instruction} {instruction : Instruction}
    (decoded : Decoded offset code (front ++ instruction :: back)) :
    ∃ rest, code = front.flatMap Instruction.bytes ++ (instruction.bytes ++ rest) ∧
      instruction.offset = offset + (front.flatMap Instruction.bytes).length ∧
      instruction.immediate.length ≤ immediateLen instruction.byte ∧
      (rest ≠ [] → instruction.immediate.length = immediateLen instruction.byte) ∧
      back.flatMap Instruction.bytes = rest := by
  induction front generalizing offset code with
  | nil =>
      cases decoded with
      | @cons _ _ _ rest _ width whole behind =>
          refine ⟨rest, ?_, rfl, width, whole, behind.flatMap_bytes⟩
          rw [Instruction.bytes_eq, List.flatMap_nil, List.nil_append, List.cons_append]
  | cons first front induction =>
      cases decoded with
      | @cons _ byte immediate _ _ _ _ behind =>
          obtain ⟨rest, parts, place, others⟩ := induction behind
          refine ⟨rest, ?_, ?_, others⟩
          · rw [parts, List.flatMap_cons, Instruction.bytes_eq ⟨offset, byte, immediate⟩,
              List.append_assoc, List.cons_append]
          · rw [place, List.flatMap_cons, List.length_append, Instruction.length_bytes,
              Nat.add_assoc]

end Decoded

/-- The number of an instruction is that of its bytes as digits, the lowest last. -/
theorem Instruction.value_eq (instruction : Instruction) :
    instruction.value = Nat.ofDigits 256 (instruction.immediate.reverse.map UInt8.toNat) := by
  change natOfBytes instruction.immediate = _
  induction instruction.immediate with
  | nil => rfl
  | cons byte bytes induction =>
      rw [natOfBytes_cons, induction, List.reverse_cons, List.map_append, Nat.ofDigits_append,
        List.length_map, List.length_reverse, List.map_singleton, Nat.ofDigits_singleton]
      ring

/-- Any code comes apart into no more instructions than it has bytes, and the bytes of these are the
code again. Each instruction stands where those before it end, and has all the bytes that its opcode
asks for unless it is the last one and the code ends. Its number is that of its bytes, the highest
first, and fits 32 bits. -/
theorem disassemble_lossless (code : List UInt8) :
    (disassemble code).flatMap Instruction.bytes = code ∧
      (disassemble code).length ≤ code.length ∧
      ∀ front instruction back, disassemble code = front ++ instruction :: back →
        instruction.offset = (front.flatMap Instruction.bytes).length ∧
        (back ≠ [] → instruction.immediate.length = immediateLen instruction.byte) ∧
        instruction.immediate =
          (code.drop (instruction.offset + 1)).take (immediateLen instruction.byte) ∧
        instruction.value =
          Nat.ofDigits 256 (instruction.immediate.reverse.map UInt8.toNat) ∧
        instruction.value < 2 ^ 32 := by
  have decoded := decoded_disassemble code
  refine ⟨decoded.flatMap_bytes, decoded.length_le, ?_⟩
  intro front instruction back split
  obtain ⟨rest, parts, place, width, whole, behind⟩ := (split ▸ decoded).split
  rw [Nat.zero_add] at place
  refine ⟨place, fun more => whole ?_, ?_, instruction.value_eq, ?_⟩
  · obtain ⟨next, others, rfl⟩ := List.exists_cons_of_ne_nil more
    rw [← behind, List.flatMap_cons, Instruction.bytes_eq]
    simp
  · have left : code.drop (instruction.offset + 1) = instruction.immediate ++ rest := by
      rw [parts, place, Instruction.bytes_eq, List.cons_append, List.drop_length_add_append]
      rfl
    rw [left]
    cases rest with
    | nil => rw [List.append_nil, List.take_of_length_le width]
    | cons byte rest => rw [← whole (List.cons_ne_nil _ _), List.take_left]
  · have small := natOfBytes_lt instruction.immediate
    have narrow : instruction.immediate.length ≤ 4 := width.trans (immediateLen_le _)
    calc instruction.value < 256 ^ instruction.immediate.length := small
      _ ≤ 256 ^ 4 := Nat.pow_le_pow_right (by decide) narrow
      _ = 2 ^ 32 := by norm_num

/-- A push, a jump target, a byte that is no opcode, and a push that is cut. -/
theorem cut_push_lossless :
    let code := [0x60, 0x80, 0x5B, 0xFE, 0x63, 0x12, 0x34]
    disassemble code =
        [⟨0, 0x60, [0x80]⟩, ⟨2, 0x5B, []⟩, ⟨3, 0xFE, []⟩] ++ ⟨4, 0x63, [0x12, 0x34]⟩ :: [] ∧
      (disassemble code).flatMap Instruction.bytes = code ∧
      (⟨4, 0x63, [0x12, 0x34]⟩ : Instruction).value = Nat.ofDigits 256 [0x34, 0x12] ∧
      (⟨4, 0x63, [0x12, 0x34]⟩ : Instruction).value < 2 ^ 32 := by
  intro code
  have read : disassemble code =
      [⟨0, 0x60, [0x80]⟩, ⟨2, 0x5B, []⟩, ⟨3, 0xFE, []⟩] ++ ⟨4, 0x63, [0x12, 0x34]⟩ :: [] := by rfl
  obtain ⟨kept, -, each⟩ := disassemble_lossless code
  obtain ⟨-, -, -, value, small⟩ := each _ _ _ read
  exact ⟨read, kept, value, small⟩

end Covenant.Evm
