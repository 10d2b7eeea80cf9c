import Covenant.Evm.Opcode
import Covenant.Text.Hex

/-! Bytes read back as instructions. Any bytes can be read. -/

namespace Covenant.Evm

structure Instruction where
  offset : Nat
  byte : UInt8
  /-- Shorter than the opcode asks for where the code ends early. -/
  immediate : List UInt8
deriving DecidableEq

namespace Instruction

def opcode? (instruction : Instruction) : Option Opcode :=
  Opcode.ofByte? instruction.byte

/-- The immediate bytes as a number, the highest first. -/
def value (instruction : Instruction) : Nat :=
  instruction.immediate.foldl (fun value byte => value * 256 + byte.toNat) 0

def name (instruction : Instruction) : String :=
  match instruction.opcode? with
  | some opcode => opcode.mnemonic
  | none => s!"UNKNOWN(0x{Hex.encode [instruction.byte]})"

/-- A line of a listing. -/
def render (instruction : Instruction) : String :=
  let immediate :=
    if instruction.immediate.isEmpty then "" else " 0x" ++ Hex.encode instruction.immediate
  s!"{Hex.padded 4 instruction.offset}: {instruction.name}{immediate}\n"

end Instruction

/-- How many bytes after this one belong to its instruction. Unknown bytes stand alone. -/
def immediateLen (byte : UInt8) : Nat :=
  match Opcode.ofByte? byte with
  | some opcode => opcode.immediateLen
  | none => 0

/-- Adds the instructions of a code to `done`, which stand latest first. The first `skip` bytes belong
to an instruction already read. -/
def disassembleFrom (done : List Instruction) (offset : Nat) : Nat → List UInt8 → List Instruction
  | _, [] => done.reverse
  | skip + 1, _ :: rest => disassembleFrom done (offset + 1) skip rest
  | 0, byte :: rest =>
      let width := immediateLen byte
      disassembleFrom (⟨offset, byte, rest.take width⟩ :: done) (offset + 1) width rest

def disassemble (code : List UInt8) : List Instruction :=
  disassembleFrom [] 0 0 code

/-- One line for each instruction. -/
def listing (code : List UInt8) : String :=
  (disassemble code).foldl (fun out instruction => out ++ instruction.render) ""

end Covenant.Evm
