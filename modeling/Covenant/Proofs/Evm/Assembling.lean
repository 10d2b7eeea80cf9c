import Covenant.Evm.Assembly
import Covenant.Evm.Machine
import Covenant.Proofs.Sequence

/-! Assembled code. Every instruction stands at the sum of the sizes before it, every label at the
jump target that binds it, and reading the bytes back finds each instruction where it was put. -/

namespace Covenant.Evm

def codeSize : List Instr → Nat
  | [] => 0
  | instr :: instrs => instr.size + codeSize instrs

@[simp] theorem codeSize_nil : codeSize [] = 0 := rfl

@[simp] theorem codeSize_cons (instr : Instr) (instrs : List Instr) :
    codeSize (instr :: instrs) = instr.size + codeSize instrs := rfl

@[simp] theorem codeSize_append (left right : List Instr) :
    codeSize (left ++ right) = codeSize left + codeSize right := by
  induction left with
  | nil => simp
  | cons instr left induction => simp [induction, Nat.add_assoc]

def boundLabels (instrs : List Instr) : List Nat :=
  instrs.filterMap fun
    | .jumpDest label => some label
    | _ => none

@[simp] theorem boundLabels_append (left right : List Instr) :
    boundLabels (left ++ right) = boundLabels left ++ boundLabels right :=
  List.filterMap_append

theorem mem_boundLabels {instrs : List Instr} {label : Nat} :
    label ∈ boundLabels instrs ↔ .jumpDest label ∈ instrs := by
  unfold boundLabels
  rw [List.mem_filterMap]
  constructor
  · rintro ⟨instr, member, bound⟩
    cases instr <;> simp_all
  · intro member
    exact ⟨_, member, rfl⟩

namespace Layout

theorem size_foldl_extend (layout : Layout) (instrs : List Instr) :
    (instrs.foldl extend layout).size = layout.size + codeSize instrs := by
  induction instrs generalizing layout with
  | nil => rfl
  | cons instr instrs induction =>
      have sizeStep : (layout.extend instr).size = layout.size + instr.size := by
        cases instr <;> rfl
      rw [List.foldl_cons, induction, sizeStep, codeSize_cons, Nat.add_assoc]

theorem labels_foldl_extend (layout : Layout) (instrs : List Instr) :
    (instrs.foldl extend layout).offsets.size = layout.offsets.size := by
  induction instrs generalizing layout with
  | nil => rfl
  | cons instr instrs induction =>
      have labelStep : (layout.extend instr).offsets.size = layout.offsets.size := by
        cases instr <;> simp [extend]
      rw [List.foldl_cons, induction, labelStep]

theorem offset?_foldl_extend (layout : Layout) {instrs : List Instr} {label : Nat}
    (unbound : label ∉ boundLabels instrs) :
    (instrs.foldl extend layout).offset? label = layout.offset? label := by
  induction instrs generalizing layout with
  | nil => rfl
  | cons instr instrs induction =>
      rw [mem_boundLabels] at unbound
      have headOther : instr ≠ .jumpDest label := by
        rintro rfl
        exact unbound (by simp)
      have tailUnbound : label ∉ boundLabels instrs := by
        intro bound
        exact unbound (List.mem_cons_of_mem _ (mem_boundLabels.1 bound))
      rw [List.foldl_cons, induction _ tailUnbound]
      cases instr with
      | jumpDest other =>
          have different : other ≠ label := by
            rintro rfl
            exact headOther rfl
          simp [extend, offset?, different]
      | op _ | push _ | pushFixed _ _ | pushLabel _ => rfl

/-- A label that is bound once stands at the size of the code before its jump target. -/
theorem offset?_ofInstrs {labels label : Nat} {front back : List Instr}
    (known : label < labels) (unbound : label ∉ boundLabels back) :
    (ofInstrs labels (front ++ .jumpDest label :: back)).offset? label =
      some (codeSize front) := by
  unfold ofInstrs
  rw [List.foldl_append, List.foldl_cons, offset?_foldl_extend _ unbound]
  have labelCount := labels_foldl_extend ⟨.replicate labels none, 0⟩ front
  have sizeBefore := size_foldl_extend ⟨.replicate labels none, 0⟩ front
  simp only [Array.size_replicate] at labelCount
  simp only [Nat.zero_add] at sizeBefore
  simp [extend, offset?, labelCount, known, sizeBefore]

end Layout

@[simp] theorem length_bigEndian (value width : Nat) : (bigEndian value width).length = width := by
  induction width with
  | zero => rfl
  | succ width induction => simp [bigEndian, induction]

namespace Instr

/-- The opcode that an instruction is written with. -/
def opcode : Instr → Opcode
  | op opcode => opcode
  | push value => Opcode.narrowestPush value
  | pushFixed opcode _ => opcode
  | pushLabel _ => .push2
  | jumpDest _ => .jumpdest

/-- Only pushes have bytes after their opcode, and a push of a given width has some. -/
def WellFormed : Instr → Prop
  | op opcode => opcode.immediateLen = 0
  | pushFixed opcode _ => opcode.immediateLen ≠ 0
  | _ => True

theorem size_eq (instr : Instr) : instr.size = 1 + instr.opcode.immediateLen := by
  cases instr <;> rfl

/-- An instruction is written as its opcode and all the bytes that the opcode asks for. -/
theorem encode_whole {instr : Instr} (wellFormed : instr.WellFormed) {layout : Layout}
    {chunk : List UInt8} (encoded : instr.encode layout = .ok chunk) :
    ∃ immediate, chunk = instr.opcode.byte :: immediate ∧
      immediate.length = instr.opcode.immediateLen := by
  cases instr with
  | op opcode =>
      cases encoded
      exact ⟨[], rfl, by simpa [WellFormed, Instr.opcode] using wellFormed.symm⟩
  | push value =>
      cases encoded
      exact ⟨_, rfl, length_bigEndian _ _⟩
  | pushFixed opcode value =>
      cases encoded
      exact ⟨_, rfl, length_bigEndian _ _⟩
  | pushLabel label =>
      simp only [encode] at encoded
      split at encoded
      · cases encoded
      · split at encoded
        · cases encoded
          exact ⟨_, rfl, length_bigEndian _ _⟩
        · cases encoded
  | jumpDest label =>
      cases encoded
      exact ⟨[], rfl, rfl⟩

theorem length_encode {instr : Instr} (wellFormed : instr.WellFormed) {layout : Layout}
    {chunk : List UInt8} (encoded : instr.encode layout = .ok chunk) :
    chunk.length = instr.size := by
  obtain ⟨immediate, rfl, immediateLength⟩ := encode_whole wellFormed encoded
  rw [size_eq, List.length_cons, immediateLength, Nat.add_comm]

end Instr

/-! Reading bytes back. -/

theorem immediateLen_byte (opcode : Opcode) : immediateLen opcode.byte = opcode.immediateLen := by
  unfold immediateLen
  rw [Opcode.ofByte?_eq_some_iff.2 rfl]

theorem disassembleFrom_skip (done : List Instruction) (offset : Nat) (skipped rest : List UInt8) :
    disassembleFrom done offset skipped.length (skipped ++ rest) =
      disassembleFrom done (offset + skipped.length) 0 rest := by
  induction skipped generalizing offset with
  | nil => rfl
  | cons byte skipped induction =>
      simp only [List.length_cons, List.cons_append, disassembleFrom]
      rw [induction]
      congr 1
      omega

/-- Bytes that are one instruction, with all that its opcode asks for. -/
def IsWhole (chunk : List UInt8) : Prop :=
  ∃ opcode immediate, chunk = Opcode.byte opcode :: immediate ∧
    immediate.length = opcode.immediateLen

/-- Chunks as the instructions they are, from an offset on. -/
def located : Nat → List (List UInt8) → List Instruction
  | _, [] => []
  | offset, chunk :: chunks =>
      ⟨offset, chunk.headD 0, chunk.tail⟩ :: located (offset + chunk.length) chunks

theorem disassembleFrom_whole (done : List Instruction) (offset : Nat) {chunk : List UInt8}
    (rest : List UInt8) (whole : IsWhole chunk) :
    disassembleFrom done offset 0 (chunk ++ rest) =
      disassembleFrom (⟨offset, chunk.headD 0, chunk.tail⟩ :: done) (offset + chunk.length) 0
        rest := by
  obtain ⟨opcode, immediate, rfl, immediateLength⟩ := whole
  simp only [List.cons_append, disassembleFrom, immediateLen_byte]
  rw [← immediateLength, List.take_left, disassembleFrom_skip]
  congr 1
  rw [List.length_cons]
  omega

theorem disassembleFrom_flatten (done : List Instruction) (offset : Nat)
    {chunks : List (List UInt8)} (rest : List UInt8) (whole : ∀ chunk ∈ chunks, IsWhole chunk) :
    disassembleFrom done offset 0 (chunks.flatten ++ rest) =
      disassembleFrom ((located offset chunks).reverse ++ done) (offset + chunks.flatten.length) 0
        rest := by
  induction chunks generalizing done offset with
  | nil => rfl
  | cons chunk chunks induction =>
      have headWhole : IsWhole chunk := whole chunk (by simp)
      have tailWhole : ∀ other ∈ chunks, IsWhole other := by
        intro other member
        exact whole other (List.mem_cons_of_mem _ member)
      rw [List.flatten_cons, List.append_assoc, disassembleFrom_whole _ _ _ headWhole,
        induction _ _ tailWhole, List.length_append, ← Nat.add_assoc]
      simp [located]

theorem disassemble_flatten {chunks : List (List UInt8)}
    (whole : ∀ chunk ∈ chunks, IsWhole chunk) :
    disassemble chunks.flatten = located 0 chunks := by
  have scanned := disassembleFrom_flatten [] 0 [] whole
  simpa [disassemble, disassembleFrom] using scanned

/-- What has been read stays in front of what follows. -/
theorem reverse_prefix_disassembleFrom (done : List Instruction) (offset skip : Nat)
    (code : List UInt8) : done.reverse <+: disassembleFrom done offset skip code := by
  fun_induction disassembleFrom done offset skip code with
  | case1 => exact List.prefix_rfl
  | case2 _ _ _ _ _ induction => exact induction
  | case3 done _ _ _ _ induction =>
      rw [List.reverse_cons] at induction
      exact (List.prefix_append _ _).trans induction

theorem located_prefix_disassemble {chunks : List (List UInt8)} (rest : List UInt8)
    (whole : ∀ chunk ∈ chunks, IsWhole chunk) :
    located 0 chunks <+: disassemble (chunks.flatten ++ rest) := by
  have kept := reverse_prefix_disassembleFrom (located 0 chunks).reverse
    (0 + chunks.flatten.length) 0 rest
  rwa [List.reverse_reverse, ← List.append_nil (located 0 chunks).reverse,
    ← disassembleFrom_flatten [] 0 rest whole] at kept

theorem located_append (offset : Nat) (left right : List (List UInt8)) :
    located offset (left ++ right) =
      located offset left ++ located (offset + left.flatten.length) right := by
  induction left generalizing offset with
  | nil => rfl
  | cons chunk left induction =>
      simp [located, induction, Nat.add_assoc]

/-! Programs and their bytes. -/

/-- Bytes as which well-formed instructions were written, each label having one place. -/
structure Image (program : List Instr) (layout : Layout) (code : List UInt8) : Prop where
  wellFormed : ∀ instr ∈ program, instr.WellFormed
  placed : ∀ {front back : List Instr} {label : Nat}, program = front ++ .jumpDest label :: back →
    layout.offset? label = some (codeSize front)
  written : ∃ chunks, List.Forall₂ (fun instr chunk => instr.encode layout = .ok chunk)
    program chunks ∧ code = chunks.flatten

theorem Assembly.image_of_assemble {assembly : Assembly} {code : List UInt8}
    (wellFormed : ∀ instr ∈ assembly.instrs.toList, instr.WellFormed)
    (distinct : (boundLabels assembly.instrs.toList).Nodup)
    (known : ∀ label ∈ boundLabels assembly.instrs.toList, label < assembly.labels)
    (assembled : assembly.assemble = .ok code) :
    Image assembly.instrs.toList assembly.layout code := by
  refine ⟨wellFormed, ?_, ?_⟩
  · intro front back label split
    rw [split, boundLabels_append] at distinct
    have unbound : label ∉ boundLabels back :=
      (List.nodup_cons.1 (List.nodup_append.1 distinct).2.1).1
    have isKnown : label < assembly.labels := by
      apply known
      rw [mem_boundLabels, split]
      simp
    rw [layout, split]
    exact Layout.offset?_ofInstrs isKnown unbound
  · obtain ⟨chunks, written, joined⟩ := bind_eq_ok_iff.1 assembled
    cases joined
    exact ⟨chunks, mapM_eq_ok_iff.1 written, rfl⟩

theorem length_flatten_chunks {instrs : List Instr} {layout : Layout} {chunks : List (List UInt8)}
    (wellFormed : ∀ instr ∈ instrs, instr.WellFormed)
    (written : List.Forall₂ (fun instr chunk => instr.encode layout = .ok chunk) instrs chunks) :
    chunks.flatten.length = codeSize instrs := by
  induction written with
  | nil => rfl
  | @cons instr chunk instrs chunks encoded _ induction =>
      have headLength := Instr.length_encode (wellFormed instr (by simp)) encoded
      have tailLength := induction fun other member =>
        wellFormed other (List.mem_cons_of_mem _ member)
      rw [List.flatten_cons, List.length_append, codeSize_cons, headLength, tailLength]

theorem isWhole_of_written {program : List Instr} {layout : Layout} {chunks : List (List UInt8)}
    (wellFormed : ∀ instr ∈ program, instr.WellFormed)
    (written : List.Forall₂ (fun instr chunk => instr.encode layout = .ok chunk) program chunks) :
    ∀ chunk ∈ chunks, IsWhole chunk := by
  intro chunk member
  obtain ⟨index, inside, rfl⟩ := List.getElem_of_mem member
  have inside' : index < program.length := by rwa [written.length_eq]
  have encoded := written.get inside' inside
  obtain ⟨immediate, shape, immediateLength⟩ :=
    Instr.encode_whole (wellFormed _ (List.getElem_mem inside')) encoded
  exact ⟨_, immediate, shape, immediateLength⟩

namespace Image

variable {program front back : List Instr} {layout : Layout} {code : List UInt8} {instr : Instr}

theorem length_code (image : Image program layout code) : code.length = codeSize program := by
  obtain ⟨chunks, written, rfl⟩ := image.written
  exact length_flatten_chunks image.wellFormed written

/-- The chunks around an instruction, the first of which fill the bytes before it. -/
theorem split (image : Image program layout code) (here : program = front ++ instr :: back) :
    ∃ before chunk after, code = (before ++ chunk :: after).flatten ∧
      (∀ piece ∈ before ++ chunk :: after, IsWhole piece) ∧
      before.flatten.length = codeSize front ∧ instr.encode layout = .ok chunk := by
  obtain ⟨chunks, written, rfl⟩ := image.written
  have wellFormed := image.wellFormed
  have whole := isWhole_of_written wellFormed written
  subst here
  have frontWritten := List.forall₂_take front.length written
  have backWritten := List.forall₂_drop front.length written
  rw [List.take_left] at frontWritten
  rw [List.drop_left, List.forall₂_cons_left_iff] at backWritten
  obtain ⟨chunk, after, encoded, -, remaining⟩ := backWritten
  refine ⟨chunks.take front.length, chunk, after, ?_, ?_, ?_, encoded⟩
  · rw [← remaining, List.take_append_drop]
  · rwa [← remaining, List.take_append_drop]
  · exact length_flatten_chunks (fun other member => wellFormed other (by simp [member]))
      frontWritten

end Image

/-- Code that begins with the bytes of a program. What stands behind them need not be code. -/
def Begins (program : List Instr) (layout : Layout) (code : List UInt8) : Prop :=
  ∃ own data, Image program layout own ∧ code = own ++ data

theorem Image.begins {program : List Instr} {layout : Layout} {code : List UInt8}
    (image : Image program layout code) : Begins program layout code :=
  ⟨code, [], image, (List.append_nil code).symm⟩

namespace Begins

variable {program front back : List Instr} {layout : Layout} {code : List UInt8} {instr : Instr}

theorem wellFormed (begins : Begins program layout code) : ∀ instr ∈ program, instr.WellFormed := by
  obtain ⟨_, _, image, -⟩ := begins
  exact image.wellFormed

theorem placed (begins : Begins program layout code) {label : Nat}
    (here : program = front ++ .jumpDest label :: back) :
    layout.offset? label = some (codeSize front) := by
  obtain ⟨_, _, image, -⟩ := begins
  exact image.placed here

/-- The bytes of an instruction and those before it. -/
theorem split (begins : Begins program layout code) (here : program = front ++ instr :: back) :
    ∃ before chunk after, code = before ++ (chunk ++ after) ∧ before.length = codeSize front ∧
      instr.encode layout = .ok chunk := by
  obtain ⟨own, data, image, rfl⟩ := begins
  obtain ⟨before, chunk, after, rfl, -, beforeLength, encoded⟩ := image.split here
  exact ⟨before.flatten, chunk, after.flatten ++ data, by simp, beforeLength, encoded⟩

/-- A bound label is a place to which jumps may go. -/
theorem isJumpTarget (begins : Begins program layout code) {label : Nat}
    (here : program = front ++ .jumpDest label :: back) :
    Evm.isJumpTarget code (codeSize front) = true := by
  obtain ⟨own, data, image, rfl⟩ := begins
  obtain ⟨before, chunk, after, rfl, whole, beforeLength, encoded⟩ := image.split here
  cases encoded
  have found : (⟨codeSize front, Opcode.jumpdest.byte, []⟩ : Instruction) ∈
      located 0 (before ++ [Opcode.jumpdest.byte] :: after) := by
    rw [located_append, Nat.zero_add, beforeLength]
    simp [located]
  exact List.any_eq_true.2 ⟨_, (located_prefix_disassemble data whole).subset found, by simp⟩

end Begins

end Covenant.Evm
