import Covenant.Error
import Covenant.Evm.Opcode

/-! Code with symbolic jump targets. Sizes do not depend on where labels lie, so a first pass over the
instructions finds the labels and a second one writes the bytes. -/

namespace Covenant.Evm

inductive Instr where
  | op (opcode : Opcode)
  /-- A push of the narrowest width. -/
  | push (value : UInt32)
  /-- A push of a given width, which keeps the lowest bytes of the value. -/
  | pushFixed (opcode : Opcode) (value : UInt32)
  /-- A push of the offset of a label, always of two bytes. -/
  | pushLabel (label : Nat)
  /-- A jump target, which binds a label to its own offset. -/
  | jumpDest (label : Nat)
deriving DecidableEq

/-- The lowest `width` bytes of a number, the highest of them first. -/
def bigEndian (value : Nat) : (width : Nat) → List UInt8
  | 0 => []
  | width + 1 => UInt8.ofNat (value >>> (8 * width)) :: bigEndian value width

namespace Instr

def size : Instr → Nat
  | op opcode => 1 + opcode.immediateLen
  | push value => 1 + (Opcode.narrowestPush value).immediateLen
  | pushFixed opcode _ => 1 + opcode.immediateLen
  | pushLabel _ => 3
  | jumpDest _ => 1

def render : Instr → String
  | op opcode => s!"Op({opcode.mnemonic})"
  | push value => s!"Push({value})"
  | pushFixed opcode value => s!"PushFixed({opcode.mnemonic}, {value})"
  | pushLabel label => s!"PushLabel(Label({label}))"
  | jumpDest label => s!"JumpDest(Label({label}))"

/-- An opcode followed by as much of the value as it takes. -/
def encodePush (opcode : Opcode) (value : Nat) : List UInt8 :=
  opcode.byte :: bigEndian value opcode.immediateLen

end Instr

/-- The greatest offset that a pushed label can have. -/
def maxJumpTarget : Nat := 0xFFFF

/-- Where each label is bound, and the size of the code. -/
structure Layout where
  offsets : Array (Option Nat)
  size : Nat

namespace Layout

/-- Goes on with one more instruction. A label that is bound again keeps the later offset. -/
def extend : Layout → Instr → Layout
  | ⟨offsets, size⟩, .jumpDest label => ⟨offsets.setIfInBounds label (some size), size + 1⟩
  | ⟨offsets, size⟩, instr => ⟨offsets, size + instr.size⟩

def ofInstrs (labels : Nat) (instrs : List Instr) : Layout :=
  instrs.foldl extend ⟨.replicate labels none, 0⟩

def offset? (layout : Layout) (label : Nat) : Option Nat :=
  layout.offsets[label]?.join

end Layout

/-- Instructions, with how many labels there are for them. -/
structure Assembly where
  labels : Nat
  instrs : Array Instr

namespace Assembly

def empty : Assembly := ⟨0, #[]⟩

/-- Adds a label, whose number is the number of labels before it. -/
def newLabel (assembly : Assembly) : Assembly :=
  { assembly with labels := assembly.labels + 1 }

def emit (assembly : Assembly) (instr : Instr) : Assembly :=
  { assembly with instrs := assembly.instrs.push instr }

def layout (assembly : Assembly) : Layout :=
  .ofInstrs assembly.labels assembly.instrs.toList

end Assembly

/-- The bytes of an instruction in a layout. -/
def Instr.encode (layout : Layout) : Instr → Except CompileError (List UInt8)
  | op opcode => pure [opcode.byte]
  | push value => pure (encodePush (Opcode.narrowestPush value) value.toNat)
  | pushFixed opcode value => pure (encodePush opcode value.toNat)
  | pushLabel label =>
      match layout.offset? label with
      | none => throw (.unboundLabel label)
      | some target =>
          if target ≤ maxJumpTarget then pure (encodePush .push2 target)
          else throw (.resource (.codeTooLarge layout.size maxJumpTarget))
  | jumpDest _ => pure [Opcode.jumpdest.byte]

/-- The bytes of the code. -/
def Assembly.assemble (assembly : Assembly) : Except CompileError (List UInt8) := do
  let chunks ← assembly.instrs.toList.mapM (Instr.encode assembly.layout)
  return chunks.flatten

end Covenant.Evm
