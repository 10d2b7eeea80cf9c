/-! The machine instructions that generated code is made of. -/

namespace Covenant.Evm

inductive Opcode where
  | stop | lt | eq | iszero | shr
  | callvalue | calldataload | calldatasize | codecopy
  | pop | mstore | jump | jumpi | jumpdest
  | push1 | push2 | push3 | push4 | dup1 | dup3
  | return_ | revert
deriving DecidableEq

namespace Opcode

def all : List Opcode :=
  [stop, lt, eq, iszero, shr, callvalue, calldataload, calldatasize, codecopy, pop, mstore, jump,
    jumpi, jumpdest, push1, push2, push3, push4, dup1, dup3, return_, revert]

def byte : Opcode → UInt8
  | stop => 0x00
  | lt => 0x10
  | eq => 0x14
  | iszero => 0x15
  | shr => 0x1C
  | callvalue => 0x34
  | calldataload => 0x35
  | calldatasize => 0x36
  | codecopy => 0x39
  | pop => 0x50
  | mstore => 0x52
  | jump => 0x56
  | jumpi => 0x57
  | jumpdest => 0x5B
  | push1 => 0x60
  | push2 => 0x61
  | push3 => 0x62
  | push4 => 0x63
  | dup1 => 0x80
  | dup3 => 0x82
  | return_ => 0xF3
  | revert => 0xFD

def mnemonic : Opcode → String
  | stop => "STOP"
  | lt => "LT"
  | eq => "EQ"
  | iszero => "ISZERO"
  | shr => "SHR"
  | callvalue => "CALLVALUE"
  | calldataload => "CALLDATALOAD"
  | calldatasize => "CALLDATASIZE"
  | codecopy => "CODECOPY"
  | pop => "POP"
  | mstore => "MSTORE"
  | jump => "JUMP"
  | jumpi => "JUMPI"
  | jumpdest => "JUMPDEST"
  | push1 => "PUSH1"
  | push2 => "PUSH2"
  | push3 => "PUSH3"
  | push4 => "PUSH4"
  | dup1 => "DUP1"
  | dup3 => "DUP3"
  | return_ => "RETURN"
  | revert => "REVERT"

def ofByte? (byte : UInt8) : Option Opcode :=
  all.find? fun opcode => opcode.byte == byte

def ofMnemonic? (mnemonic : String) : Option Opcode :=
  all.find? fun opcode => opcode.mnemonic == mnemonic

theorem ofByte?_eq_some_iff {byte : UInt8} {opcode : Opcode} :
    ofByte? byte = some opcode ↔ opcode.byte = byte := by
  constructor
  · intro found
    simpa using List.find?_some found
  · rintro rfl
    cases opcode <;> rfl

/-- How many bytes after the opcode belong to the instruction. -/
def immediateLen : Opcode → Nat
  | push1 => 1
  | push2 => 2
  | push3 => 3
  | push4 => 4
  | _ => 0

/-- The push with exactly this many bytes. -/
def pushOfLen? : Nat → Option Opcode
  | 1 => some push1
  | 2 => some push2
  | 3 => some push3
  | 4 => some push4
  | _ => none

/-- The push with the fewest bytes that hold the value. Zero takes one. -/
def narrowestPush (value : UInt32) : Opcode :=
  if value.toNat ≤ 0xFF then push1
  else if value.toNat ≤ 0xFFFF then push2
  else if value.toNat ≤ 0xFFFFFF then push3
  else push4

end Opcode

end Covenant.Evm
