import Covenant.Evm.Disassembly

/-! What code does when it runs: a machine with words of 256 bits, an unbounded stack and memory, and no
gas. Only the opcodes of generated code are known to it. -/

namespace Covenant.Evm

abbrev Word := BitVec 256

namespace Word

def ofBool (b : Bool) : Word :=
  if b then 1 else 0

/-- The word that bytes spell, the highest first. -/
def ofBytes (bytes : List UInt8) : Word :=
  BitVec.ofNat 256 (bytes.foldl (fun value byte => value * 256 + byte.toNat) 0)

/-- A byte of a word, counted from the highest. -/
def byte (word : Word) (index : Nat) : UInt8 :=
  UInt8.ofNat (word.toNat >>> (8 * (31 - index)))

def shr (word shift : Word) : Word :=
  if shift.toNat < 256 then word >>> shift.toNat else 0

end Word

/-- Bytes from an offset on. Past the end there are only zeros. -/
def window (bytes : List UInt8) (offset size : Nat) : List UInt8 :=
  (List.range size).map fun index => bytes[offset + index]?.getD 0

/-- A jump may only go to a `JUMPDEST` that is an instruction of its own. -/
def isJumpTarget (code : List UInt8) (target : Nat) : Bool :=
  (disassemble code).any fun instruction =>
    instruction.offset == target && instruction.byte == Opcode.jumpdest.byte

/-- The bytes that a caller sends. Their number fits a word. -/
structure CallData where
  bytes : List UInt8
  length_le : bytes.length ≤ (BitVec.allOnes 256).toNat

/-- What a run is given. -/
structure Call where
  code : List UInt8
  data : CallData
  value : Word

inductive Fault where
  | stackUnderflow | unknownByte | badJump
deriving DecidableEq

inductive Outcome where
  | stopped
  | returned (data : List UInt8)
  | reverted (data : List UInt8)
  | faulted (fault : Fault)
deriving DecidableEq

abbrev Memory := Nat → UInt8

namespace Memory

def empty : Memory := fun _ => 0

def slice (memory : Memory) (offset size : Nat) : List UInt8 :=
  (List.range size).map fun index => memory (offset + index)

def storeWord (memory : Memory) (offset : Nat) (word : Word) : Memory := fun address =>
  if offset ≤ address ∧ address < offset + 32 then word.byte (address - offset)
  else memory address

def storeBytes (memory : Memory) (offset : Nat) (bytes : List UInt8) : Memory := fun address =>
  if offset ≤ address then (bytes[address - offset]?).getD (memory address) else memory address

end Memory

/-- The state between two instructions. -/
structure Machine where
  pc : Nat
  stack : List Word
  memory : Memory

namespace Machine

def start : Machine := ⟨0, [], .empty⟩

/-- Goes on behind an instruction of `size` bytes. -/
def next (machine : Machine) (size : Nat) (stack : List Word) : Machine :=
  { machine with pc := machine.pc + size, stack := stack }

def jump (call : Call) (machine : Machine) (target : Word) (stack : List Word) :
    Except Outcome Machine :=
  if isJumpTarget call.code target.toNat then .ok { machine with pc := target.toNat, stack := stack }
  else .error (.faulted .badJump)

/-- Pushes the bytes after the opcode. -/
def push (call : Call) (machine : Machine) (width : Nat) : Machine :=
  machine.next (1 + width) (Word.ofBytes (window call.code (machine.pc + 1) width) :: machine.stack)

/-- One instruction: the state after it, or the outcome of the run. -/
def execute (call : Call) (machine : Machine) (opcode : Opcode) : Except Outcome Machine :=
  match opcode, machine.stack with
  | .stop, _ => .error .stopped
  | .lt, a :: b :: stack => .ok (machine.next 1 (Word.ofBool (a < b) :: stack))
  | .eq, a :: b :: stack => .ok (machine.next 1 (Word.ofBool (a == b) :: stack))
  | .iszero, a :: stack => .ok (machine.next 1 (Word.ofBool (a == 0) :: stack))
  | .shr, shift :: a :: stack => .ok (machine.next 1 (Word.shr a shift :: stack))
  | .callvalue, stack => .ok (machine.next 1 (call.value :: stack))
  | .calldataload, offset :: stack =>
      .ok (machine.next 1 (Word.ofBytes (window call.data.bytes offset.toNat 32) :: stack))
  | .calldatasize, stack =>
      .ok (machine.next 1 (BitVec.ofNat 256 call.data.bytes.length :: stack))
  | .codecopy, target :: offset :: size :: stack =>
      let bytes := window call.code offset.toNat size.toNat
      .ok { machine.next 1 stack with memory := machine.memory.storeBytes target.toNat bytes }
  | .pop, _ :: stack => .ok (machine.next 1 stack)
  | .mstore, offset :: a :: stack =>
      .ok { machine.next 1 stack with memory := machine.memory.storeWord offset.toNat a }
  | .jump, target :: stack => machine.jump call target stack
  | .jumpi, target :: condition :: stack =>
      if condition = 0 then .ok (machine.next 1 stack) else machine.jump call target stack
  | .jumpdest, stack => .ok (machine.next 1 stack)
  | .push1, _ => .ok (machine.push call 1)
  | .push2, _ => .ok (machine.push call 2)
  | .push3, _ => .ok (machine.push call 3)
  | .push4, _ => .ok (machine.push call 4)
  | .dup1, a :: stack => .ok (machine.next 1 (a :: a :: stack))
  | .dup3, a :: b :: c :: stack => .ok (machine.next 1 (c :: a :: b :: c :: stack))
  | .return_, offset :: size :: _ =>
      .error (.returned (machine.memory.slice offset.toNat size.toNat))
  | .revert, offset :: size :: _ =>
      .error (.reverted (machine.memory.slice offset.toNat size.toNat))
  | _, _ => .error (.faulted .stackUnderflow)

/-- Running past the end of the code stops. -/
def step (call : Call) (machine : Machine) : Except Outcome Machine :=
  match call.code[machine.pc]? with
  | none => .error .stopped
  | some byte =>
      match Opcode.ofByte? byte with
      | none => .error (.faulted .unknownByte)
      | some opcode => machine.execute call opcode

/-- The outcome of a run, if it comes within `steps` instructions. -/
def run (call : Call) : (steps : Nat) → Machine → Option Outcome
  | 0, _ => none
  | steps + 1, machine =>
      match machine.step call with
      | .error outcome => some outcome
      | .ok machine => run call steps machine

/-- The states that a run passes through. -/
inductive Reachable (call : Call) : Machine → Prop
  | start : Reachable call .start
  | step {machine after : Machine} :
      Reachable call machine → machine.step call = .ok after → Reachable call after

end Machine

/-- The run of a call ends with this outcome. -/
def Call.Halts (call : Call) (outcome : Outcome) : Prop :=
  ∃ steps, Machine.run call steps .start = some outcome

end Covenant.Evm
