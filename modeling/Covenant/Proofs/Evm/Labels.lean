import Covenant.Proofs.Evm.Assembling
import Mathlib.Data.List.Nodup

/-! Code in which every label that is pushed is bound, and bound once. Assembling it fails only where
the code is too long for two bytes, and then with the size of the whole code. -/

namespace Covenant.Evm

namespace Instr

/-- What follows the opcode of an instruction in a layout. -/
def immediate (layout : Layout) : Instr → List UInt8
  | op _ => []
  | push value => bigEndian value.toNat (Opcode.narrowestPush value).immediateLen
  | pushFixed opcode value => bigEndian value.toNat opcode.immediateLen
  | pushLabel label => bigEndian ((layout.offset? label).getD 0) Opcode.push2.immediateLen
  | jumpDest _ => []

theorem eq_of_encode_eq_ok {instr : Instr} {layout : Layout} {chunk : List UInt8}
    (encoded : instr.encode layout = .ok chunk) :
    chunk = instr.opcode.byte :: instr.immediate layout := by
  cases instr with
  | op | push | pushFixed | jumpDest =>
      cases encoded
      rfl
  | pushLabel label =>
      rw [encode] at encoded
      cases bound : layout.offset? label with
      | none =>
          rw [bound] at encoded
          cases encoded
      | some target =>
          rw [bound] at encoded
          dsimp only at encoded
          split at encoded
          · cases encoded
            rw [immediate, bound]
            rfl
          · cases encoded

end Instr

namespace Assembly

theorem size_layout (assembly : Assembly) :
    assembly.layout.size = codeSize assembly.instrs.toList := by
  rw [layout, Layout.ofInstrs, Layout.size_foldl_extend]
  exact Nat.zero_add _

structure Labelled (assembly : Assembly) : Prop where
  wellFormed : ∀ instr ∈ assembly.instrs.toList, instr.WellFormed
  distinct : (boundLabels assembly.instrs.toList).Nodup
  known : ∀ label ∈ boundLabels assembly.instrs.toList, label < assembly.labels
  bound : ∀ label, .pushLabel label ∈ assembly.instrs.toList →
    label ∈ boundLabels assembly.instrs.toList

namespace Labelled

variable {assembly : Assembly} (labelled : assembly.Labelled)

include labelled

theorem image {code : List UInt8} (assembled : assembly.assemble = .ok code) :
    Image assembly.instrs.toList assembly.layout code :=
  image_of_assemble labelled.wellFormed labelled.distinct labelled.known assembled

theorem placed {front back : List Instr} {label : Nat}
    (split : assembly.instrs.toList = front ++ .jumpDest label :: back) :
    assembly.layout.offset? label = some (codeSize front) := by
  have isBound : label ∈ boundLabels assembly.instrs.toList := by
    rw [mem_boundLabels, split]
    simp
  have distinct := labelled.distinct
  rw [split, boundLabels_append] at distinct
  have later : label ∉ boundLabels back :=
    (List.nodup_cons.1 (List.nodup_append.1 distinct).2.1).1
  have known := labelled.known label isBound
  rw [layout, split]
  exact Layout.offset?_ofInstrs known later

/-- A label stands before the end of the code. -/
theorem offset?_of_pushLabel {label : Nat} (pushed : .pushLabel label ∈ assembly.instrs.toList) :
    ∃ target, assembly.layout.offset? label = some target ∧
      target < codeSize assembly.instrs.toList := by
  obtain ⟨front, back, split⟩ :=
    List.append_of_mem (mem_boundLabels.1 (labelled.bound label pushed))
  refine ⟨codeSize front, labelled.placed split, ?_⟩
  rw [split, codeSize_append, codeSize_cons, Instr.size]
  omega

theorem encode_cases {instr : Instr} (member : instr ∈ assembly.instrs.toList) :
    (∃ chunk, instr.encode assembly.layout = .ok chunk) ∨
      maxJumpTarget < codeSize assembly.instrs.toList ∧
        instr.encode assembly.layout =
          .error (.resource (.codeTooLarge (codeSize assembly.instrs.toList) maxJumpTarget)) := by
  cases instr with
  | op | push | pushFixed | jumpDest => exact .inl ⟨_, rfl⟩
  | pushLabel label =>
      obtain ⟨target, offset, inside⟩ := labelled.offset?_of_pushLabel member
      rw [Instr.encode, offset, size_layout]
      dsimp only
      rcases Nat.lt_or_ge maxJumpTarget target with far | near
      · rw [if_neg (Nat.not_le.2 far)]
        exact .inr ⟨Nat.lt_trans far inside, rfl⟩
      · rw [if_pos near]
        exact .inl ⟨_, rfl⟩

theorem assemble_cases :
    (∃ code, assembly.assemble = .ok code ∧ code.length = codeSize assembly.instrs.toList) ∨
      maxJumpTarget < codeSize assembly.instrs.toList ∧
        assembly.assemble =
          .error (.resource (.codeTooLarge (codeSize assembly.instrs.toList) maxJumpTarget)) := by
  cases assembled : assembly.assemble with
  | ok code =>
      left
      obtain ⟨chunks, written, rfl⟩ := (labelled.image assembled).written
      exact ⟨_, rfl, length_flatten_chunks labelled.wellFormed written⟩
  | error error =>
      right
      rcases bind_eq_error_iff.1 assembled with failed | ⟨_, _, returned⟩
      · obtain ⟨instr, member, fails⟩ := exists_of_mapM_eq_error failed
        rcases labelled.encode_cases member with ⟨chunk, encoded⟩ | ⟨far, tooLarge⟩
        · rw [encoded] at fails
          cases fails
        · rw [tooLarge] at fails
          cases fails
          exact ⟨far, rfl⟩
      · cases returned

end Labelled

end Assembly

/-! Labels under other numbers. -/

namespace Instr

def relabel (change : Nat → Nat) : Instr → Instr
  | pushLabel label => pushLabel (change label)
  | jumpDest label => jumpDest (change label)
  | instr => instr

theorem wellFormed_relabel {change : Nat → Nat} {instr : Instr} (wellFormed : instr.WellFormed) :
    (instr.relabel change).WellFormed := by
  cases instr <;> exact wellFormed

end Instr

theorem codeSize_relabel (change : Nat → Nat) (instrs : List Instr) :
    codeSize (instrs.map (Instr.relabel change)) = codeSize instrs := by
  induction instrs with
  | nil => rfl
  | cons instr instrs induction =>
      have size : (instr.relabel change).size = instr.size := by cases instr <;> rfl
      rw [List.map_cons, codeSize_cons, codeSize_cons, induction, size]

theorem boundLabels_relabel (change : Nat → Nat) (instrs : List Instr) :
    boundLabels (instrs.map (Instr.relabel change)) = (boundLabels instrs).map change := by
  induction instrs with
  | nil => rfl
  | cons instr instrs induction =>
      rw [List.map_cons, ← List.singleton_append, boundLabels_append, induction,
        ← List.singleton_append (l := instrs), boundLabels_append, List.map_append]
      cases instr <;> rfl

namespace Assembly

/-- The same code with so many labels under other numbers. -/
def relabel (assembly : Assembly) (labels : Nat) (change : Nat → Nat) : Assembly :=
  ⟨labels, (assembly.instrs.toList.map (Instr.relabel change)).toArray⟩

namespace Labelled

variable {assembly : Assembly} {labels : Nat} {change : Nat → Nat}

theorem relabel (labelled : assembly.Labelled)
    (separate : ∀ label ∈ boundLabels assembly.instrs.toList,
      ∀ other ∈ boundLabels assembly.instrs.toList, change label = change other → label = other)
    (known : ∀ label ∈ boundLabels assembly.instrs.toList, change label < labels) :
    (assembly.relabel labels change).Labelled := by
  constructor
  case wellFormed =>
    intro instr member
    obtain ⟨original, isMember, rfl⟩ := List.mem_map.1 member
    exact Instr.wellFormed_relabel (labelled.wellFormed original isMember)
  case distinct =>
    change (boundLabels (assembly.instrs.toList.map _)).Nodup
    rw [boundLabels_relabel]
    exact List.Nodup.map_on separate labelled.distinct
  case known =>
    change ∀ label ∈ boundLabels (assembly.instrs.toList.map _), label < labels
    rw [boundLabels_relabel, List.forall_mem_map]
    exact known
  case bound =>
    intro label pushed
    obtain ⟨original, isMember, same⟩ := List.mem_map.1 pushed
    change label ∈ boundLabels (assembly.instrs.toList.map _)
    rw [boundLabels_relabel]
    cases original with
    | pushLabel old =>
        cases same
        exact List.mem_map_of_mem (labelled.bound old isMember)
    | op | push | pushFixed | jumpDest => cases same

/-- The bytes do not depend on the numbers of the labels. -/
theorem assemble_relabel (labelled : assembly.Labelled)
    (relabelled : (assembly.relabel labels change).Labelled) :
    (assembly.relabel labels change).assemble = assembly.assemble := by
  have size : (assembly.relabel labels change).layout.size = assembly.layout.size := by
    rw [size_layout, size_layout]
    exact codeSize_relabel _ _
  have same : ∀ instr ∈ assembly.instrs.toList,
      (instr.relabel change).encode (assembly.relabel labels change).layout =
        instr.encode assembly.layout := by
    intro instr member
    cases instr with
    | op | push | pushFixed | jumpDest => rfl
    | pushLabel label =>
        obtain ⟨front, back, split⟩ :=
          List.append_of_mem (mem_boundLabels.1 (labelled.bound label member))
        have moved : (assembly.relabel labels change).instrs.toList =
            front.map (Instr.relabel change) ++
              .jumpDest (change label) :: back.map (Instr.relabel change) := by
          rw [Assembly.relabel, split, List.map_append, List.map_cons]
          rfl
        rw [Instr.relabel, Instr.encode, Instr.encode, size, labelled.placed split,
          relabelled.placed moved, codeSize_relabel]
  have chunks : (assembly.instrs.toList.map (Instr.relabel change)).mapM
      (Instr.encode (assembly.relabel labels change).layout) =
      assembly.instrs.toList.mapM (Instr.encode assembly.layout) := by
    rw [List.mapM_map]
    exact mapM_congr same
  rw [assemble, assemble, ← chunks]
  rfl

end Labelled

end Assembly

end Covenant.Evm
