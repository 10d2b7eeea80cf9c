import Covenant.Proofs.Evm.Labels
import Covenant.Proofs.Evm.Running
import Mathlib

/-! Reading assembled code back. Whatever calls an assembly is built from, its bytes come apart into
the instructions that were put in, and a pushed label comes out as the offset of the jump target that
binds it. -/

namespace Covenant.Evm

/-- An instruction that was read where this one was written. -/
structure Instruction.Reads (layout : Layout) (instruction : Instruction) (instr : Instr) : Prop where
  opcode : instruction.opcode? = some instr.opcode
  immediate : instruction.immediate = instr.immediate layout

theorem forall₂_located {layout : Layout} {program : List Instr} {chunks : List (List UInt8)}
    (written : List.Forall₂ (fun instr chunk => instr.encode layout = .ok chunk) program chunks)
    (offset : Nat) :
    List.Forall₂ (Instruction.Reads layout) (located offset chunks) program := by
  induction written generalizing offset with
  | nil => exact .nil
  | @cons instr chunk program chunks encoded _ induction =>
      refine .cons ?_ (induction _)
      rw [Instr.eq_of_encode_eq_ok encoded]
      exact ⟨Opcode.ofByte?_eq_some_iff.2 rfl, rfl⟩

theorem offsets_located {layout : Layout} {program : List Instr} {chunks : List (List UInt8)}
    (wellFormed : ∀ instr ∈ program, instr.WellFormed)
    (written : List.Forall₂ (fun instr chunk => instr.encode layout = .ok chunk) program chunks)
    (offset : Nat) :
    (located offset chunks).map Instruction.offset =
      (List.range program.length).map fun index => offset + codeSize (program.take index) := by
  induction written generalizing offset with
  | nil => rfl
  | @cons instr chunk program chunks encoded _ induction =>
      have size : chunk.length = instr.size := Instr.length_encode (wellFormed instr (by simp)) encoded
      have later := induction (fun other member => wellFormed other (by simp [member]))
        (offset + chunk.length)
      rw [located, List.map_cons, later, size, List.length_cons, List.range_succ_eq_map,
        List.map_cons, List.map_map]
      simp [Function.comp_def, Nat.add_assoc]

namespace Image

variable {program front back : List Instr} {layout : Layout} {code : List UInt8}

theorem reads (image : Image program layout code) :
    List.Forall₂ (Instruction.Reads layout) (disassemble code) program := by
  obtain ⟨chunks, written, rfl⟩ := image.written
  rw [disassemble_flatten (isWhole_of_written image.wellFormed written)]
  exact forall₂_located written 0

theorem offsets (image : Image program layout code) :
    (disassemble code).map Instruction.offset =
      (List.range program.length).map fun index => codeSize (program.take index) := by
  obtain ⟨chunks, written, rfl⟩ := image.written
  rw [disassemble_flatten (isWhole_of_written image.wellFormed written),
    offsets_located image.wellFormed written 0]
  simp

/-- Each instruction is found again by its number. -/
theorem instruction_at (image : Image program layout code) {instr : Instr}
    (here : program = front ++ instr :: back) :
    ∃ instruction, (disassemble code)[front.length]? = some instruction ∧
      instruction.offset = codeSize front ∧ instruction.Reads layout instr := by
  have written : front.length < program.length := by simp [here]
  have read : front.length < (disassemble code).length := image.reads.length_eq ▸ written
  have isHere : program[front.length] = instr := by simp [here]
  refine ⟨(disassemble code)[front.length], List.getElem?_eq_getElem read, ?_, ?_⟩
  · have offset := congrArg (fun offsets => offsets[front.length]?) image.offsets
    simpa [read, written, here] using offset
  · rw [← isHere]
    exact image.reads.get read written

end Image

/-! Assemblies that have been built call by call. -/

namespace Assembly

/-- What is asked of an instruction before it is added: just the pushes have bytes after their opcode,
labels have been made, and none is bound again. -/
def Admits (assembly : Assembly) : Instr → Prop
  | .op opcode => opcode.immediateLen = 0
  | .push _ => True
  | .pushFixed opcode _ => opcode.immediateLen ≠ 0
  | .pushLabel label => label < assembly.labels
  | .jumpDest label => label < assembly.labels ∧ .jumpDest label ∉ assembly.instrs.toList

instance (assembly : Assembly) : DecidablePred assembly.Admits
  | .op opcode => inferInstanceAs (Decidable (opcode.immediateLen = 0))
  | .push _ => inferInstanceAs (Decidable True)
  | .pushFixed opcode _ => inferInstanceAs (Decidable (opcode.immediateLen ≠ 0))
  | .pushLabel label => inferInstanceAs (Decidable (label < assembly.labels))
  | .jumpDest label => inferInstanceAs
      (Decidable (label < assembly.labels ∧ .jumpDest label ∉ assembly.instrs.toList))

inductive Built : Assembly → Prop where
  | empty : Built empty
  | newLabel {assembly : Assembly} : Built assembly → Built assembly.newLabel
  | emit {assembly : Assembly} {instr : Instr} :
      Built assembly → assembly.Admits instr → Built (assembly.emit instr)

/-- Every label that is pushed is bound, before or after. -/
def Resolved (assembly : Assembly) : Prop :=
  ∀ label, .pushLabel label ∈ assembly.instrs.toList → .jumpDest label ∈ assembly.instrs.toList

section

variable {assembly : Assembly} {instr : Instr}

theorem toList_emit (assembly : Assembly) (instr : Instr) :
    (assembly.emit instr).instrs.toList = assembly.instrs.toList ++ [instr] :=
  Array.toList_push

theorem Admits.wellFormed (admits : assembly.Admits instr) : instr.WellFormed := by
  cases instr with
  | op | pushFixed => exact admits
  | push | pushLabel | jumpDest => trivial

theorem Admits.known (admits : assembly.Admits instr) :
    ∀ label ∈ boundLabels [instr], label < assembly.labels := by
  intro label bound
  rw [mem_boundLabels, List.mem_singleton] at bound
  subst bound
  exact admits.1

theorem Admits.unbound (admits : assembly.Admits instr) :
    ∀ label ∈ boundLabels assembly.instrs.toList, label ∉ boundLabels [instr] := by
  intro label bound again
  rw [mem_boundLabels, List.mem_singleton] at again
  subst again
  exact admits.2 (mem_boundLabels.1 bound)

/-- Once every pushed label is bound, what calls have built can be assembled. -/
theorem Built.labelled (built : assembly.Built) (resolved : assembly.Resolved) :
    assembly.Labelled := by
  have invariant : (∀ instr ∈ assembly.instrs.toList, instr.WellFormed) ∧
      (boundLabels assembly.instrs.toList).Nodup ∧
      ∀ label ∈ boundLabels assembly.instrs.toList, label < assembly.labels := by
    clear resolved
    induction built with
    | empty => exact ⟨List.forall_mem_nil _, List.nodup_nil, List.forall_mem_nil _⟩
    | newLabel _ induction =>
        obtain ⟨wellFormed, distinct, known⟩ := induction
        exact ⟨wellFormed, distinct, fun label bound => Nat.lt_succ_of_lt (known label bound)⟩
    | @emit assembly instr _ admits induction =>
        obtain ⟨wellFormed, distinct, known⟩ := induction
        rw [toList_emit, boundLabels_append]
        have once : (boundLabels [instr]).Nodup := by cases instr <;> simp [boundLabels]
        refine ⟨?_, ?_, ?_⟩
        · rw [List.forall_mem_append, List.forall_mem_singleton]
          exact ⟨wellFormed, admits.wellFormed⟩
        · rw [List.nodup_append']
          exact ⟨distinct, once, admits.unbound⟩
        · rw [List.forall_mem_append]
          exact ⟨known, admits.known⟩
  obtain ⟨wellFormed, distinct, known⟩ := invariant
  refine ⟨wellFormed, distinct, known, ?_⟩
  intro label pushed
  exact mem_boundLabels.2 (resolved label pushed)

end

/-- Two bytes hold the offset of every pushed label. -/
def InReach (assembly : Assembly) : Prop :=
  ∀ label, .pushLabel label ∈ assembly.instrs.toList →
    ∃ target, assembly.layout.offset? label = some target ∧ target ≤ maxJumpTarget

theorem assemble_of_inReach {assembly : Assembly} (inReach : assembly.InReach) :
    ∃ code, assembly.assemble = .ok code := by
  cases assembled : assembly.assemble with
  | ok code => exact ⟨code, rfl⟩
  | error error =>
      rcases bind_eq_error_iff.1 assembled with failed | ⟨_, _, returned⟩
      · obtain ⟨instr, member, fails⟩ := exists_of_mapM_eq_error failed
        cases instr with
        | op | push | pushFixed | jumpDest => cases fails
        | pushLabel label =>
            obtain ⟨target, offset, near⟩ := inReach label member
            rw [Instr.encode, offset] at fails
            dsimp only at fails
            rw [if_pos near] at fails
            cases fails
      · cases returned

namespace Labelled

variable {assembly : Assembly} (labelled : assembly.Labelled)

include labelled

theorem inReach_of_assemble {code : List UInt8} (assembled : assembly.assemble = .ok code) :
    assembly.InReach := by
  intro label pushed
  obtain ⟨front, back, bound⟩ :=
    List.append_of_mem (mem_boundLabels.1 (labelled.bound label pushed))
  have near := ((labelled.image assembled).begins.encode_pushLabel pushed bound).1
  exact ⟨codeSize front, labelled.placed bound, near⟩

theorem assemble_of_not_inReach (far : ¬assembly.InReach) :
    assembly.assemble =
      .error (.resource (.codeTooLarge assembly.layout.size maxJumpTarget)) := by
  rcases labelled.assemble_cases with ⟨code, assembled, -⟩ | ⟨-, tooLarge⟩
  · exact (far (labelled.inReach_of_assemble assembled)).elim
  · rw [tooLarge, size_layout]

end Labelled

end Assembly

/-! What is read back. -/

/-- A push of this opcode holds the value, and no narrower one does. -/
theorem isLeast_narrowestPush (value : UInt32) :
    IsLeast {width | 1 ≤ width ∧ value.toNat < 256 ^ width}
      (Opcode.narrowestPush value).immediateLen := by
  refine ⟨⟨Nat.one_le_iff_ne_zero.2 (narrowestPush_isPush value), lt_narrowestPush value⟩, ?_⟩
  rintro width ⟨positive, holds⟩
  have wider {narrow : Nat} (exceeds : 256 ^ narrow ≤ value.toNat) : narrow + 1 ≤ width := by
    by_contra small
    have smaller : 256 ^ width ≤ 256 ^ narrow := Nat.pow_le_pow_right (by decide) (by omega)
    omega
  unfold Opcode.narrowestPush
  split_ifs with one two three
  · exact positive
  · exact @wider 1 (by omega)
  · exact @wider 2 (by omega)
  · exact @wider 3 (by omega)

theorem pushOfLen?_narrowestPush (value : UInt32) :
    Opcode.pushOfLen? (Opcode.narrowestPush value).immediateLen =
      some (Opcode.narrowestPush value) := by
  unfold Opcode.narrowestPush
  split_ifs <;> rfl

/-- What an instruction looks like once it is read back among others, in order. -/
def Instruction.Decodes (assembly : Assembly) (others : List Instruction)
    (instruction : Instruction) : Instr → Prop
  | .op opcode => instruction.opcode? = some opcode ∧ instruction.immediate = []
  | .push value =>
      instruction.opcode? = Opcode.pushOfLen? instruction.immediate.length ∧
        IsLeast {width | 1 ≤ width ∧ value.toNat < 256 ^ width} instruction.immediate.length ∧
        instruction.value = value.toNat
  | .pushFixed opcode value =>
      instruction.opcode? = some opcode ∧ instruction.immediate.length = opcode.immediateLen ∧
        instruction.value = value.toNat % 256 ^ opcode.immediateLen
  | .pushLabel label =>
      instruction.opcode? = some .push2 ∧ instruction.immediate.length = 2 ∧
        assembly.layout.offset? label = some instruction.value ∧
        ∃ (index : Nat) (target : Instruction), assembly.instrs[index]? = some (.jumpDest label) ∧
          others[index]? = some target ∧ target.opcode? = some .jumpdest ∧
          target.offset = instruction.value
  | .jumpDest _ => instruction.opcode? = some .jumpdest ∧ instruction.immediate = []

theorem Instruction.Reads.value {layout : Layout} {instruction : Instruction} {instr : Instr}
    (reads : instruction.Reads layout instr) {value width : Nat}
    (immediate : instr.immediate layout = bigEndian value width) :
    instruction.value = value % 256 ^ width := by
  rw [Instruction.value, reads.immediate, immediate]
  exact natOfBytes_bigEndian value width

section

variable {assembly : Assembly} {code : List UInt8}

theorem Assembly.Labelled.decodes (labelled : assembly.Labelled)
    (assembled : assembly.assemble = .ok code) {instruction : Instruction} {instr : Instr}
    (reads : instruction.Reads assembly.layout instr) (member : instr ∈ assembly.instrs.toList) :
    instruction.Decodes assembly (disassemble code) instr := by
  have image := labelled.image assembled
  have opcode := reads.opcode
  cases instr with
  | op | jumpDest => exact ⟨opcode, reads.immediate⟩
  | push value =>
      have length : instruction.immediate.length = (Opcode.narrowestPush value).immediateLen := by
        rw [reads.immediate]
        exact length_bigEndian _ _
      refine ⟨?_, ?_, ?_⟩
      · rw [opcode, length, pushOfLen?_narrowestPush, Instr.opcode]
      · rw [length]
        exact isLeast_narrowestPush value
      · rw [reads.value rfl, Nat.mod_eq_of_lt (lt_narrowestPush value)]
  | pushFixed push value =>
      refine ⟨opcode, ?_, reads.value rfl⟩
      rw [reads.immediate]
      exact length_bigEndian _ _
  | pushLabel label =>
      obtain ⟨front, back, bound⟩ :=
        List.append_of_mem (mem_boundLabels.1 (labelled.bound label member))
      obtain ⟨target, found, offset, readsTarget⟩ := image.instruction_at bound
      have placed := labelled.placed bound
      have small := (image.begins.encode_pushLabel member bound).1
      have value : instruction.value = codeSize front := by
        have immediate : (Instr.pushLabel label).immediate assembly.layout =
            bigEndian (codeSize front) 2 := by
          rw [Instr.immediate, placed]
          rfl
        rw [reads.value immediate]
        exact Nat.mod_eq_of_lt (Nat.lt_succ_of_le small)
      refine ⟨opcode, ?_, ?_, front.length, target, ?_, found, readsTarget.opcode, ?_⟩
      · rw [reads.immediate]
        exact length_bigEndian _ _
      · rw [placed, value]
      · rw [← Array.getElem?_toList, bound]
        simp
      · rw [offset, value]

end

/-- The bytes of an assembly are read back as what was put into it. -/
structure Assembly.ReadBack (assembly : Assembly) (code : List UInt8) : Prop where
  size : code.length = assembly.layout.size
  offsets : (disassemble code).map Instruction.offset =
    (List.range assembly.instrs.size).map fun index =>
      (Layout.ofInstrs assembly.labels (assembly.instrs.toList.take index)).size
  decoded : List.Forall₂ (Instruction.Decodes assembly (disassemble code)) (disassemble code)
    assembly.instrs.toList

theorem Assembly.Labelled.readBack {assembly : Assembly} (labelled : assembly.Labelled)
    {code : List UInt8} (assembled : assembly.assemble = .ok code) : assembly.ReadBack code := by
  have image := labelled.image assembled
  refine ⟨?_, ?_, ?_⟩
  · rw [image.length_code, size_layout]
  · rw [image.offsets, Array.length_toList]
    apply List.map_congr_left
    intro index _
    rw [Layout.ofInstrs, Layout.size_foldl_extend, Nat.zero_add]
  · have both := (List.forall₂_and_left (p := (· ∈ assembly.instrs.toList)) _ _).2
      ⟨fun _ member => member, image.reads.flip⟩
    apply List.Forall₂.flip
    apply both.imp
    intro instr instruction decoded
    exact labelled.decodes assembled decoded.2 decoded.1

/-- Whatever calls an assembly is built from, if every label it pushes is bound: it is assembled just
if two bytes hold the offsets of these labels, and otherwise fails with the size of the whole code.
The bytes come apart into its instructions again. -/
theorem Assembly.assembled_code_reads_back {assembly : Assembly} (built : assembly.Built)
    (resolved : assembly.Resolved) :
    ((∃ code, assembly.assemble = .ok code) ↔ assembly.InReach) ∧
      (¬assembly.InReach → assembly.assemble =
        .error (.resource (.codeTooLarge assembly.layout.size maxJumpTarget))) ∧
      ∀ code, assembly.assemble = .ok code → assembly.ReadBack code := by
  have labelled := built.labelled resolved
  refine ⟨⟨?_, assemble_of_inReach⟩, labelled.assemble_of_not_inReach, ?_⟩
  · rintro ⟨code, assembled⟩
    exact labelled.inReach_of_assemble assembled
  · intro code assembled
    exact labelled.readBack assembled

/-- Two jumps, one forward and one back, around pushes of every width. Some of the bytes pushed would
be jump targets if they stood alone. -/
def Assembly.loop : Assembly :=
  [.jumpDest 0, .pushLabel 1, .op .jumpi, .push 0x5B, .push 0x5B5B, .push 0x10000, .push 0x5B5B5B5B,
    .pushFixed .push1 0x1263, .pushLabel 0, .op .jump, .jumpDest 1, .op .stop].foldl
      emit empty.newLabel.newLabel

def Assembly.loopCode : List UInt8 :=
  [0x5B, 0x61, 0, 25, 0x57, 0x60, 0x5B, 0x61, 0x5B, 0x5B, 0x62, 1, 0, 0, 0x63, 0x5B, 0x5B, 0x5B, 0x5B,
    0x60, 0x63, 0x61, 0, 0, 0x56, 0x5B, 0x00]

theorem Assembly.loop_reads_back :
    loop.Built ∧ loop.Resolved ∧ loop.InReach ∧ loop.assemble = .ok loopCode ∧
      loop.ReadBack loopCode := by
  have built : loop.Built := by
    simp only [loop, List.foldl]
    repeat refine .emit ?_ (by decide)
    exact .newLabel (.newLabel .empty)
  have resolved : loop.Resolved := by
    intro label pushed
    have known : label = 1 ∨ label = 0 := by
      simpa [loop, emit, newLabel, empty] using pushed
    rcases known with rfl | rfl <;> decide
  have assembled : loop.assemble = .ok loopCode := by rfl
  obtain ⟨inReach, -, readBack⟩ := assembled_code_reads_back built resolved
  exact ⟨built, resolved, inReach.1 ⟨_, assembled⟩, assembled, readBack _ assembled⟩

end Covenant.Evm
