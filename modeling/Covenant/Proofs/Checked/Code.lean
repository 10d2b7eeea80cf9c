import Covenant.Compilation
import Covenant.Proofs.Checked.Basic

/-! Generating code with checks. Labels are numbered as they are made, one for each function, two for
the calls that no function takes, and one for each stub that refuses value. -/

namespace Covenant.Checked

open Evm

/-! Instructions. -/

/-- A new label, with how many there are then. -/
def newLabel (labels : Nat) : Checked (Nat × Nat) := do
  let next ← add Span.maxOffset labels 1
  return (← sub next 1, next)

/-- An instruction without bytes after its opcode. -/
def op (opcode : Opcode) : Checked Instr := do
  require (opcode.immediateLen = 0) .otherOperand
  return .op opcode

def pushFixed (opcode : Opcode) (value : UInt32) : Checked Instr := do
  require (0 < opcode.immediateLen) .otherOperand
  return .pushFixed opcode value

def refuse : Checked (List Instr) := do
  return [.push 0, ← op .dup1, ← op .revert]

def head (noData : Nat) : Checked (List Instr) := do
  return [.push 0x80, .push 0x40, ← op .mstore,
    ← op .calldatasize, ← op .iszero, .pushLabel noData, ← op .jumpi,
    .push 0, ← op .calldataload, .push 0xE0, ← op .shr]

def comparison (selector : Selector) (entry : Nat) : Checked (List Instr) := do
  return [← op .dup1, ← pushFixed .push4 selector, ← op .eq, .pushLabel entry, ← op .jumpi]

def fallthrough (unmatched noData : Nat) : Checked (List Instr) := do
  return .jumpDest unmatched :: (← refuse) ++ [.jumpDest noData, ← op .stop]

def valueGuard (accepted : Nat) : Checked (List Instr) := do
  return [← op .callvalue, ← op .dup1, ← op .iszero, .pushLabel accepted, ← op .jumpi] ++
    (← refuse) ++ [.jumpDest accepted, ← op .pop]

/-- The guard of a function that takes no value, after so many labels, with how many there are then. -/
def guard (labels : Nat) (payable : Bool) : Checked (List Instr × Nat) := do
  if payable then
    return ([], labels)
  else
    let (accepted, labels) ← newLabel labels
    return (← valueGuard accepted, labels)

def argumentOffset (index : Nat) : Checked UInt32 := do
  require (32 * index ≤ Span.maxOffset) .overflow
  return UInt32.ofNat (min (← add Span.maxOffset 4 (32 * index)) 0xFFFFFFFF)

def load (index : Nat) : Checked (List Instr) := do
  return [.push (← argumentOffset index), ← op .calldataload]

def loads (parameters : Nat) : Checked (List Instr) := do
  return (← (List.range parameters).mapM load).flatten

def finish (hasResult : Bool) : Checked (List Instr) := do
  if hasResult then
    return [.push 0, .push 0, ← op .mstore, .push 0x20, .push 0, ← op .return_]
  else
    return [← op .stop]

def stub (labels : Nat) (function : Function) (entry : Nat) : Checked (List Instr × Nat) := do
  let (guard, labels) ← guard labels function.modifiers.payable
  let loads ← loads function.parameters.length
  let finish ← finish function.returns.isSome
  return (.jumpDest entry :: guard ++ loads ++ finish, labels)

def stubs (labels : Nat) : List (Function × Nat) → Checked (List Instr × Nat)
  | [] => return ([], labels)
  | (function, entry) :: entries => do
      let (first, labels) ← stub labels function entry
      let (others, labels) ← stubs labels entries
      return (first ++ others, labels)

/-- A label for each function. -/
def entries (labels : Nat) : List Function → Checked (List (Function × Nat) × Nat)
  | [] => return ([], labels)
  | function :: functions => do
      let (entry, labels) ← newLabel labels
      let (others, labels) ← entries labels functions
      return ((function, entry) :: others, labels)

def dispatcher (select : String → Selector) (functions : List Function) : Checked Assembly := do
  let (entries, labels) ← entries 0 functions
  let (unmatched, labels) ← newLabel labels
  let (noData, labels) ← newLabel labels
  let head ← head noData
  let comparisons ← entries.mapM fun entry => comparison (select entry.1.signature) entry.2
  let fallthrough ← fallthrough unmatched noData
  let (stubs, labels) ← stubs labels entries
  return ⟨labels, (head ++ comparisons.flatten ++ fallthrough ++ stubs).toArray⟩

/-! Bytes. -/

/-- Goes on with one more instruction. A label is bound once, and must have been made. -/
def extend (layout : Layout) (instr : Instr) : Checked Layout := do
  match instr with
  | .jumpDest label => do
      require (label < layout.offsets.size) .unknownLabel
      require (layout.offset? label = none) .reboundLabel
      return ⟨layout.offsets.setIfInBounds label (some layout.size),
        ← add Span.maxOffset layout.size instr.size⟩
  | _ => return ⟨layout.offsets, ← add Span.maxOffset layout.size instr.size⟩

def layout (assembly : Assembly) : Checked Layout :=
  assembly.instrs.toList.foldlM extend ⟨.replicate assembly.labels none, 0⟩

/-- An opcode with the lowest of the four bytes of a number. -/
def encodePush (opcode : Opcode) (value : UInt32) : Checked (List UInt8) := do
  require (opcode.immediateLen ≤ 4) .wideImmediate
  return opcode.byte :: (bigEndian value.toNat 4).drop (← sub 4 opcode.immediateLen)

def encode (layout : Layout) : Instr → Checked (Except CompileError (List UInt8))
  | .op opcode => return .ok [opcode.byte]
  | .push value => return .ok (← encodePush (Opcode.narrowestPush value) value)
  | .pushFixed opcode value => return .ok (← encodePush opcode value)
  | .pushLabel label => do
      require (label < layout.offsets.size) .unknownLabel
      match layout.offset? label with
      | none => throw .unboundLabel
      | some target =>
          if target ≤ maxJumpTarget then
            return .ok (← encodePush .push2 (UInt32.ofNat target))
          else
            return .error (.resource (.codeTooLarge layout.size maxJumpTarget))
  | .jumpDest _ => return .ok [Opcode.jumpdest.byte]

def assemble (assembly : Assembly) : Checked (Except CompileError (List UInt8)) := do
  let layout ← layout assembly
  match ← inOrder (encode layout) assembly.instrs.toList with
  | .error error => return .error error
  | .ok chunks => do
      require (chunks.flatten.length = layout.size) .otherLength
      return .ok chunks.flatten

def runtimeCode (select : String → Selector) (contract : Contract) :
    Checked (Except CompileError (List UInt8)) := do
  assemble (← dispatcher select contract.callable)

def preamble (size : UInt32) : Checked (List Instr) := do
  return [← pushFixed .push2 size,
    ← pushFixed .push1 (UInt32.ofNat Deployment.preambleLen), .push 0, ← op .codecopy,
    ← pushFixed .push2 size, .push 0, ← op .return_]

def creationCode (runtime : List UInt8) : Checked (Except CompileError (List UInt8)) := do
  if runtime.length ≤ maxJumpTarget then
    let preamble ← preamble (UInt32.ofNat runtime.length)
    match ← assemble ⟨0, preamble.toArray⟩ with
    | .error error => return .error error
    | .ok code => do
        require (code.length = Deployment.preambleLen) .otherLength
        return .ok (code ++ runtime)
  else
    return .error (.resource (.codeTooLarge runtime.length maxJumpTarget))

def hexDigit (value : Nat) : Checked Char := do
  require (value < 16) .unknownDigit
  return Hex.digit value

def hex (bytes : List UInt8) : Checked String := do
  let digits ← bytes.mapM fun byte => do
    return [← hexDigit (byte.toNat / 16), ← hexDigit (byte.toNat % 16)]
  return String.ofList digits.flatten

/-- Both codes are also written as text, which the output does not keep. -/
def generateContract (select : String → Selector) (contract : Contract) :
    Checked (Except CompileError Compiled) := do
  match ← runtimeCode select contract with
  | .error error => return .error error
  | .ok runtime =>
      match ← creationCode runtime with
      | .error error => return .error error
      | .ok creation => do
          let _ ← hex creation
          let _ ← hex runtime
          return .ok ⟨contract.name.name, Abi.ofContract contract, creation, runtime⟩

def generate (select : String → Selector) (program : Program) :
    Checked (Except CompileError (List Compiled)) :=
  inOrder (generateContract select) program.contracts

end Covenant.Checked
