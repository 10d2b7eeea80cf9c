import Covenant.Evm.Deployment
import Covenant.Proofs.Evm.CodeSize
import Covenant.Proofs.Evm.Running
import Mathlib

/-! Deployment. The code that runs once returns the bytes behind it, whatever they are: they are
copied and never run. -/

namespace Covenant.Evm

theorem Memory.slice_storeBytes (memory : Memory) (offset : Nat) (bytes : List UInt8) :
    (memory.storeBytes offset bytes).slice offset bytes.length = bytes := by
  apply List.ext_getElem
  · simp [slice]
  · intro index _ inside
    simp [slice, storeBytes, inside]

namespace Deployment

theorem labelled_assembly (size : Nat) : (assembly size).Labelled := by
  constructor
  case wellFormed => simp [assembly, preamble, Instr.WellFormed, Opcode.immediateLen]
  case distinct => exact List.nodup_nil
  case known =>
    intro label bound
    cases bound
  case bound =>
    intro label pushed
    simp [assembly, preamble] at pushed

/-- The word that a push of two bytes leaves of a size. -/
theorem toNat_pushed {size : Nat} (fits : size ≤ maxJumpTarget) :
    (BitVec.ofNat 256 ((UInt32.ofNat size).toNat % 256 ^ Opcode.push2.immediateLen)).toNat =
      size := by
  have small : size < 65536 := Nat.lt_succ_of_le fits
  have kept : (UInt32.ofNat size).toNat = size :=
    UInt32.toNat_ofNat_of_lt' (Nat.lt_trans small (by decide))
  rw [kept, BitVec.toNat_ofNat, Opcode.immediateLen]
  omega

/-- The preamble returns as many bytes from behind it as it was made for. -/
theorem halts_preamble {size : Nat} (fits : size ≤ maxJumpTarget) {layout : Layout} {call : Call}
    (begins : Begins (preamble (UInt32.ofNat size)) layout call.code) :
    call.Halts (.returned (window call.code preambleLen size)) := by
  have pushed := toNat_pushed fits
  have copied := Memory.slice_storeBytes .empty 0 (window call.code preambleLen size)
  rw [length_window] at copied
  rw [← copied]
  nth_rewrite 1 2 [← pushed]
  apply RunsFrom.halts
  apply runsFrom_pushFixed begins
  apply runsFrom_pushFixed begins
  apply runsFrom_push begins
  apply runsFrom_codecopy begins
  apply runsFrom_pushFixed begins
  apply runsFrom_push begins
  exact runsFrom_return begins

end Deployment

/-- Code for deployment is its preamble with the deployed code behind it. -/
theorem creationCode_eq_ok {runtime code : List UInt8} (created : creationCode runtime = .ok code) :
    runtime.length ≤ maxJumpTarget ∧
      ∃ own, (Deployment.assembly runtime.length).assemble = .ok own ∧ code = own ++ runtime := by
  rcases Nat.lt_or_ge maxJumpTarget runtime.length with exceeds | fits
  · rw [creationCode_of_lt exceeds] at created
    cases created
  · rw [creationCode, if_pos fits] at created
    obtain ⟨own, assembled, returned⟩ := bind_eq_ok_iff.1 created
    cases returned
    exact ⟨fits, own, assembled, rfl⟩

theorem halts_creationCode {runtime code : List UInt8} (created : creationCode runtime = .ok code)
    (data : CallData) (value : Word) : Call.Halts ⟨code, data, value⟩ (.returned runtime) := by
  obtain ⟨fits, own, assembled, rfl⟩ := creationCode_eq_ok created
  have image := (Deployment.labelled_assembly runtime.length).image assembled
  have length : own.length = Deployment.preambleLen := image.length_code
  have behind := window_middle own runtime []
  rw [List.append_nil, length] at behind
  have begins : Begins _ _ (Call.code ⟨own ++ runtime, data, value⟩) := ⟨own, runtime, image, rfl⟩
  have halts := Deployment.halts_preamble fits begins
  rwa [behind] at halts

/-- Code for deployment is made of every code of at most 65535 bytes, and of no other. Running it
returns these bytes and has no other outcome. -/
theorem creationCode_returns_runtime (runtime : List UInt8) :
    ((∃ code, creationCode runtime = .ok code) ↔ runtime.length ≤ 65535) ∧
      (65535 < runtime.length →
        creationCode runtime = .error (.resource (.codeTooLarge runtime.length 65535))) ∧
      ∀ code, creationCode runtime = .ok code →
        ∀ (data : CallData) (value : Word) (outcome : Outcome),
          Call.Halts ⟨code, data, value⟩ outcome ↔ outcome = .returned runtime := by
  refine ⟨⟨?_, ?_⟩, creationCode_of_lt, ?_⟩
  · intro succeeds
    obtain ⟨code, created⟩ := succeeds
    exact (creationCode_eq_ok created).1
  · intro fits
    obtain ⟨code, created, -⟩ := creationCode_of_le fits
    exact ⟨code, created⟩
  · intro code created data value outcome
    have returns := halts_creationCode created data value
    constructor
    · intro halts
      exact halts.unique returns
    · intro same
      rwa [same]

/-- Bytes that no instruction has, and a push without its bytes, are deployed like others. -/
theorem creationCode_returns_unknownBytes :
    ∃ code, creationCode [0xFE, 0x5B, 0x61] = .ok code ∧
      Call.Halts ⟨code, ⟨[], by decide⟩, 7⟩ (.returned [0xFE, 0x5B, 0x61]) := by
  refine ⟨_, rfl, ?_⟩
  exact ((creationCode_returns_runtime _).2.2 _ rfl _ _ _).2 rfl

end Covenant.Evm
