import Covenant.Proofs.Checked.Code
import Covenant.Proofs.Evm.CodeSize
import Covenant.Proofs.Evm.Deploying
import Mathlib

/-! Generating code with checks never panics and gives the same code, as long as the sizes of the code
fit 64 bits. The labels have other numbers, which leave no trace in the bytes. -/

namespace Covenant.Checked

open Evm

/-! Bytes. -/

theorem drop_bigEndian (value width dropped : Nat) :
    (bigEndian value (width + dropped)).drop dropped = bigEndian value width := by
  induction dropped with
  | zero => rfl
  | succ dropped induction => rw [← Nat.add_assoc, bigEndian, List.drop_succ_cons, induction]

theorem encodePush_eq (opcode : Opcode) (value : UInt32) :
    encodePush opcode value = .ok (Instr.encodePush opcode value.toNat) := by
  have narrow : opcode.immediateLen ≤ 4 := by cases opcode <;> decide
  have dropped := drop_bigEndian value.toNat opcode.immediateLen (4 - opcode.immediateLen)
  rw [Nat.add_sub_cancel' narrow] at dropped
  rw [encodePush, require_of narrow, sub_of_le narrow, Instr.encodePush, ← dropped]
  rfl

theorem extend_eq {layout : Layout} {instr : Instr}
    (known : ∀ label ∈ boundLabels [instr], label < layout.offsets.size)
    (unbound : ∀ label ∈ boundLabels [instr], layout.offset? label = none)
    (fits : layout.size + instr.size ≤ Span.maxOffset) :
    extend layout instr = .ok (layout.extend instr) := by
  cases instr with
  | jumpDest label =>
      have isBound : label ∈ boundLabels [.jumpDest label] := by simp [boundLabels]
      rw [extend, require_of (known label isBound), require_of (unbound label isBound),
        add_of_le fits]
      rfl
  | op | push | pushFixed | pushLabel =>
      rw [extend, add_of_le fits]
      · rfl
      · simp

theorem foldlM_extend {layout : Layout} {instrs : List Instr}
    (distinct : (boundLabels instrs).Nodup)
    (known : ∀ label ∈ boundLabels instrs, label < layout.offsets.size)
    (unbound : ∀ label ∈ boundLabels instrs, layout.offset? label = none)
    (fits : layout.size + codeSize instrs ≤ Span.maxOffset) :
    instrs.foldlM extend layout = .ok (instrs.foldl Layout.extend layout) := by
  induction instrs generalizing layout with
  | nil => rfl
  | cons instr instrs induction =>
      rw [← List.singleton_append, boundLabels_append] at distinct known unbound
      rw [codeSize_cons] at fits
      obtain ⟨-, restDistinct, apart⟩ := List.nodup_append.1 distinct
      have moved : extend layout instr = .ok (layout.extend instr) := by
        apply extend_eq
        · exact fun label bound => known label (List.mem_append_left _ bound)
        · exact fun label bound => unbound label (List.mem_append_left _ bound)
        · omega
      have size := Layout.size_foldl_extend layout [instr]
      have labels := Layout.labels_foldl_extend layout [instr]
      rw [List.foldl_cons, List.foldl_nil] at size labels
      rw [codeSize_cons, codeSize_nil] at size
      rw [List.foldlM_cons, moved, List.foldl_cons]
      apply induction restDistinct
      · intro label bound
        rw [labels]
        exact known label (List.mem_append_right _ bound)
      · intro label bound
        -- Being bound once, a label of the rest is still free after this instruction.
        have other : label ∉ boundLabels [instr] := by
          intro here
          exact apart label here label bound rfl
        have kept := Layout.offset?_foldl_extend layout other
        rw [List.foldl_cons, List.foldl_nil] at kept
        rw [kept]
        exact unbound label (List.mem_append_right _ bound)
      · rw [size]
        omega

section Labelled

variable {assembly : Assembly} (labelled : assembly.Labelled)

include labelled

theorem layout_eq (fits : codeSize assembly.instrs.toList ≤ Span.maxOffset) :
    layout assembly = .ok assembly.layout := by
  apply foldlM_extend labelled.distinct
  · intro label bound
    rw [Array.size_replicate]
    exact labelled.known label bound
  · intro label bound
    have known := labelled.known label bound
    simp [Layout.offset?, known]
  · rw [Nat.zero_add]
    exact fits

theorem encode_eq {instr : Instr} (member : instr ∈ assembly.instrs.toList) :
    encode assembly.layout instr = .ok (instr.encode assembly.layout) := by
  cases instr with
  | op | jumpDest => rfl
  | push | pushFixed =>
      rw [encode, encodePush_eq]
      rfl
  | pushLabel label =>
      obtain ⟨target, offset, -⟩ := labelled.offset?_of_pushLabel member
      have known : label < assembly.layout.offsets.size := by
        by_contra unknown
        rw [Layout.offset?, Array.getElem?_eq_none (Nat.le_of_not_lt unknown)] at offset
        cases offset
      rw [encode, require_of known, Instr.encode, offset]
      dsimp only
      by_cases near : target ≤ maxJumpTarget
      · have kept : (UInt32.ofNat target).toNat = target := by
          rw [maxJumpTarget] at near
          rw [UInt32.toNat_ofNat']
          omega
        rw [if_pos near, if_pos near, encodePush_eq, kept]
        rfl
      · rw [if_neg near, if_neg near]
        rfl

theorem assemble_eq (fits : codeSize assembly.instrs.toList ≤ Span.maxOffset) :
    assemble assembly = .ok assembly.assemble := by
  have same : inOrder (encode assembly.layout) assembly.instrs.toList =
      .ok (assembly.instrs.toList.mapM (Instr.encode assembly.layout)) :=
    inOrder_eq fun instr member => encode_eq labelled member
  rw [assemble, layout_eq labelled fits, ok_bind, same, ok_bind, Assembly.assemble]
  cases written : assembly.instrs.toList.mapM (Instr.encode assembly.layout) with
  | error error => rfl
  | ok chunks =>
      have length : chunks.flatten.length = assembly.layout.size := by
        rw [Assembly.size_layout]
        exact length_flatten_chunks labelled.wellFormed (mapM_eq_ok_iff.1 written)
      dsimp only
      rw [require_of length]
      rfl

end Labelled

/-! Labels. Those that are made as they are needed stand in the same order as those that have a
place for each function, without the places of functions that take value. -/

theorem newLabel_of_lt {labels : Nat} (fits : labels < Span.maxOffset) :
    newLabel labels = .ok (labels, labels + 1) := by
  rw [newLabel, add_of_le fits]
  rfl

def guards (functions : List Function) : Nat :=
  functions.countP fun function => !function.modifiers.payable

/-- The label that is made where the code with a place for each function has this one. -/
def renumber (functions : List Function) (label : Nat) : Nat :=
  if label < functions.length + 2 then label
  else functions.length + 2 + guards (functions.take (label - (functions.length + 2)))

theorem renumber_of_lt {functions : List Function} {label : Nat}
    (early : label < functions.length + 2) : renumber functions label = label :=
  if_pos early

theorem renumber_accepted (functions : List Function) (index : Nat) :
    renumber functions (Dispatcher.accepted functions.length index) =
      functions.length + 2 + guards (functions.take index) := by
  rw [renumber, if_neg (by rw [Dispatcher.accepted]; omega), Dispatcher.accepted,
    Nat.add_sub_cancel_left]

/-- A guard adds to the guards before it. -/
theorem guards_take_lt {functions : List Function} {function : Function} {index later : Nat}
    (here : functions[index]? = some function) (guarded : function.modifiers.payable = false)
    (after : index < later) : guards (functions.take index) < guards (functions.take later) := by
  have step : guards (functions.take (index + 1)) = guards (functions.take index) + 1 := by
    rw [List.take_add_one, here, guards, guards, List.countP_append]
    simp [guarded]
  have grows : guards (functions.take (index + 1)) ≤ guards (functions.take later) :=
    (List.take_sublist_take_left (l := functions) after).countP_le
  omega

theorem mem_boundLabels_instrs {select : String → Selector} {functions : List Function}
    {label : Nat} (bound : label ∈ boundLabels (Dispatcher.instrs select functions)) :
    label < functions.length + 2 ∨ ∃ index function, functions[index]? = some function ∧
      function.modifiers.payable = false ∧
      label = Dispatcher.accepted functions.length index := by
  rw [Dispatcher.boundLabels_instrs, List.mem_cons, List.mem_cons] at bound
  rcases bound with rfl | rfl | inStubs
  · left
    rw [Dispatcher.unmatched]
    omega
  · left
    rw [Dispatcher.noData]
    omega
  · obtain ⟨⟨function, index⟩, member, inside⟩ := List.mem_flatMap.1 (mem_boundLabels.1 inStubs)
    have here := List.mem_zipIdx_iff_getElem?.1 member
    have labels := mem_boundLabels.2 inside
    rw [Dispatcher.boundLabels_stub, List.mem_cons] at labels
    rcases labels with isEntry | guarded
    · left
      have inside := (List.getElem?_eq_some_iff.1 here).1
      rw [isEntry, Dispatcher.entry]
      omega
    · right
      cases payable : function.modifiers.payable with
      | true => simp [payable] at guarded
      | false =>
          have isAccepted : label = Dispatcher.accepted functions.length index := by
            simpa [payable] using guarded
          exact ⟨index, function, here, payable, isAccepted⟩

theorem renumber_inj {select : String → Selector} {functions : List Function} {label other : Nat}
    (bound : label ∈ boundLabels (Dispatcher.instrs select functions))
    (otherBound : other ∈ boundLabels (Dispatcher.instrs select functions))
    (same : renumber functions label = renumber functions other) : label = other := by
  rcases mem_boundLabels_instrs bound with early | ⟨index, function, here, guarded, rfl⟩
  · rcases mem_boundLabels_instrs otherBound with otherEarly | ⟨_, _, _, _, rfl⟩
    · rwa [renumber_of_lt early, renumber_of_lt otherEarly] at same
    · rw [renumber_of_lt early, renumber_accepted] at same
      omega
  · rcases mem_boundLabels_instrs otherBound with
      otherEarly | ⟨place, otherFunction, there, otherGuarded, rfl⟩
    · rw [renumber_of_lt otherEarly, renumber_accepted] at same
      omega
    · rw [renumber_accepted, renumber_accepted] at same
      -- Of two guards, the later one counts the earlier one among those before it.
      rcases Nat.lt_trichotomy index place with before | rfl | after
      · have fewer := guards_take_lt here guarded before
        omega
      · rfl
      · have fewer := guards_take_lt there otherGuarded after
        omega

theorem renumber_lt {select : String → Selector} {functions : List Function} {label : Nat}
    (bound : label ∈ boundLabels (Dispatcher.instrs select functions)) :
    renumber functions label < functions.length + 2 + guards functions := by
  rcases mem_boundLabels_instrs bound with early | ⟨index, function, here, guarded, rfl⟩
  · rw [renumber_of_lt early]
    omega
  · have inside := (List.getElem?_eq_some_iff.1 here).1
    have fewer := guards_take_lt here guarded inside
    rw [List.take_length] at fewer
    rw [renumber_accepted]
    omega

/-- The code whose labels are made as they are needed. -/
def compact (select : String → Selector) (functions : List Function) : Assembly :=
  (Dispatcher.assembly select functions).relabel (functions.length + 2 + guards functions)
    (renumber functions)

theorem labelled_compact (select : String → Selector) (functions : List Function) :
    (compact select functions).Labelled :=
  (Dispatcher.labelled_assembly select functions).relabel
    (fun _ bound _ otherBound => renumber_inj bound otherBound) (fun _ bound => renumber_lt bound)

/-! Instructions. -/

theorem argumentOffset_eq {index : Nat} (fits : 4 + 32 * index ≤ Span.maxOffset) :
    argumentOffset index = .ok (Dispatcher.argumentOffset index) := by
  rw [argumentOffset, require_of (by omega), add_of_le fits]
  rfl

section Relabelled

variable {count index label : Nat} {change : Nat → Nat}

theorem head_eq (renumbered : change (Dispatcher.noData count) = label) :
    head label = .ok ((Dispatcher.head count).map (Instr.relabel change)) := by
  subst renumbered
  rfl

theorem comparison_eq (selector : Selector)
    (renumbered : change (Dispatcher.entry index) = label) :
    comparison selector label =
      .ok ((Dispatcher.comparison selector index).map (Instr.relabel change)) := by
  subst renumbered
  rfl

theorem fallthrough_eq {noData : Nat}
    (unmatchedLabel : change (Dispatcher.unmatched count) = label)
    (noDataLabel : change (Dispatcher.noData count) = noData) :
    fallthrough label noData =
      .ok ((Dispatcher.fallthrough count).map (Instr.relabel change)) := by
  subst unmatchedLabel noDataLabel
  rfl

theorem guard_eq (payable : Bool) (renumbered : change (Dispatcher.accepted count index) = label)
    (room : label < Span.maxOffset) :
    guard label payable = .ok
      ((if payable then [] else Dispatcher.valueGuard count index).map (Instr.relabel change),
        if payable then label else label + 1) := by
  subst renumbered
  rw [guard, newLabel_of_lt room]
  cases payable <;> rfl

end Relabelled

theorem mapM_ok {α β : Type} {step : α → Checked β} {plain : α → β} {items : List α}
    (same : ∀ item ∈ items, step item = .ok (plain item)) :
    items.mapM step = .ok (items.map plain) :=
  mapM_eq_ok_iff.2 (List.forall₂_map_right_iff.2 (List.forall₂_same.2 same))

theorem loads_eq {parameters : Nat} (fits : 32 * parameters ≤ Span.maxOffset) (change : Nat → Nat) :
    loads parameters = .ok ((Dispatcher.loads parameters).map (Instr.relabel change)) := by
  have loaded : ∀ index ∈ List.range parameters,
      load index = .ok [.push (Dispatcher.argumentOffset index), .op .calldataload] := by
    intro index member
    have inside := List.mem_range.1 member
    rw [load, argumentOffset_eq (by omega)]
    rfl
  rw [loads, mapM_ok loaded, Dispatcher.loads, List.map_flatMap, List.flatMap_def]
  rfl

theorem finish_eq (hasResult : Bool) (change : Nat → Nat) :
    finish hasResult = .ok ((Dispatcher.finish hasResult).map (Instr.relabel change)) := by
  cases hasResult <;> rfl

theorem stub_eq {count index labels : Nat} {change : Nat → Nat} {function : Function}
    (entered : change (Dispatcher.entry index) = index)
    (accepted : change (Dispatcher.accepted count index) = labels)
    (fits : 32 * function.parameters.length ≤ Span.maxOffset) (room : labels < Span.maxOffset) :
    stub labels function index = .ok
      ((Dispatcher.stub count function index).map (Instr.relabel change),
        labels + guards [function]) := by
  have counted : (if function.modifiers.payable then labels else labels + 1) =
      labels + guards [function] := by
    cases payable : function.modifiers.payable <;> simp [guards, payable]
  rw [stub, guard_eq _ accepted room, counted, loads_eq fits change, finish_eq _ change,
    Dispatcher.stub, List.map_append, List.map_append, List.map_cons, Instr.relabel, entered]
  rfl

theorem stubs_eq {functions earlier later : List Function}
    (split : functions = earlier ++ later)
    (fits : ∀ function ∈ functions, 32 * function.parameters.length ≤ Span.maxOffset)
    (room : 2 * functions.length + 2 ≤ Span.maxOffset) :
    stubs (functions.length + 2 + guards earlier) (later.zipIdx earlier.length) = .ok
      ((Dispatcher.stubs functions.length earlier.length later).map
          (Instr.relabel (renumber functions)),
        functions.length + 2 + guards functions) := by
  -- The guards of the stubs written so far tell how many labels there are.
  induction later generalizing earlier with
  | nil =>
      rw [List.append_nil] at split
      subst split
      rfl
  | cons function later induction =>
      have moved : functions = (earlier ++ [function]) ++ later := by
        rw [split, List.append_assoc, List.singleton_append]
      have length : functions.length = earlier.length + (later.length + 1) := by
        rw [split, List.length_append, List.length_cons]
      have taken : functions.take earlier.length = earlier := by
        rw [split, List.take_left]
      have few : guards earlier ≤ earlier.length := List.countP_le_length
      have counted : guards (earlier ++ [function]) = guards earlier + guards [function] :=
        List.countP_append
      have accepted := renumber_accepted functions earlier.length
      rw [taken] at accepted
      have entered : renumber functions (Dispatcher.entry earlier.length) = earlier.length :=
        renumber_of_lt (by rw [Dispatcher.entry]; omega)
      have first := stub_eq entered accepted (fits function (by rw [split]; simp)) (by omega)
      have rest := induction moved
      rw [counted, List.length_append, List.length_singleton, ← Nat.add_assoc] at rest
      rw [List.zipIdx_cons, stubs, first, ok_bind]
      dsimp only
      rw [rest, Dispatcher.stubs_cons, List.map_append]
      rfl

theorem entries_eq {labels : Nat} {functions : List Function}
    (room : labels + functions.length ≤ Span.maxOffset) :
    entries labels functions = .ok (functions.zipIdx labels, labels + functions.length) := by
  induction functions generalizing labels with
  | nil => rfl
  | cons function functions induction =>
      rw [List.length_cons] at room
      have rest := @induction (labels + 1) (by omega)
      rw [entries, newLabel_of_lt (by omega), ok_bind]
      dsimp only
      rw [rest, List.zipIdx_cons, List.length_cons]
      simp only [ok_bind, pure_eq_ok, Nat.add_assoc, Nat.add_comm 1]

theorem dispatcher_eq (select : String → Selector) {functions : List Function}
    (fits : ∀ function ∈ functions, 32 * function.parameters.length ≤ Span.maxOffset)
    (room : 2 * functions.length + 2 ≤ Span.maxOffset) :
    dispatcher select functions = .ok (compact select functions) := by
  have unmatchedLabel : renumber functions (Dispatcher.unmatched functions.length) =
      functions.length :=
    renumber_of_lt (by rw [Dispatcher.unmatched]; omega)
  have noDataLabel : renumber functions (Dispatcher.noData functions.length) =
      functions.length + 1 :=
    renumber_of_lt (by rw [Dispatcher.noData]; omega)
  have numbered : entries 0 functions = .ok (functions.zipIdx, 0 + functions.length) :=
    entries_eq (by omega)
  have stubbed : stubs (functions.length + 1 + 1) functions.zipIdx = .ok
      ((Dispatcher.stubs functions.length 0 functions).map (Instr.relabel (renumber functions)),
        functions.length + 2 + guards functions) :=
    stubs_eq (List.nil_append functions).symm fits room
  have compared : (functions.zipIdx.mapM fun entry =>
      comparison (select entry.1.signature) entry.2) =
      .ok (functions.zipIdx.map fun entry =>
        (Dispatcher.comparison (select entry.1.signature) entry.2).map
          (Instr.relabel (renumber functions))) := by
    apply mapM_ok
    intro entry member
    have inside := List.snd_lt_of_mem_zipIdx member
    exact comparison_eq _ (renumber_of_lt (by rw [Dispatcher.entry]; omega))
  rw [dispatcher, numbered, ok_bind]
  dsimp only
  rw [Nat.zero_add, newLabel_of_lt (by omega), ok_bind]
  dsimp only
  rw [newLabel_of_lt (by omega), ok_bind]
  dsimp only
  rw [head_eq noDataLabel, ok_bind, compared, ok_bind, fallthrough_eq unmatchedLabel noDataLabel,
    ok_bind, stubbed, compact, Assembly.relabel, Dispatcher.assembly, Dispatcher.instrs_eq,
    List.map_append, List.map_append, List.map_append, Dispatcher.comparisons, List.map_flatMap,
    List.flatMap_def]
  rfl

theorem runtimeCode_eq (select : String → Selector) {contract : Contract}
    (fits : 32 * contract.codeSize ≤ Span.maxOffset) :
    runtimeCode select contract = .ok (runtimeCodeWith select contract) := by
  have size := Dispatcher.codeSize_instrs select contract.callable
  have labelled := labelled_compact select contract.callable
  have sameSize : codeSize (compact select contract.callable).instrs.toList =
      codeSize (Dispatcher.instrs select contract.callable) :=
    codeSize_relabel _ _
  have generated : dispatcher select contract.callable = .ok (compact select contract.callable) := by
    apply dispatcher_eq
    · intro function member
      have few := contract.parameters_le_codeSize member
      omega
    · have few := contract.callable_le_codeSize
      omega
  rw [runtimeCode, generated, ok_bind, assemble_eq labelled, runtimeCodeWith]
  · exact congrArg _ ((Dispatcher.labelled_assembly select contract.callable).assemble_relabel labelled)
  · rw [sameSize, size]
    rw [Contract.codeSize] at fits
    omega

theorem creationCode_eq (runtime : List UInt8) :
    creationCode runtime = .ok (Evm.creationCode runtime) := by
  rw [creationCode, Evm.creationCode]
  by_cases fits : runtime.length ≤ maxJumpTarget
  · have assembled : assemble (Deployment.assembly runtime.length) =
        .ok (Deployment.assembly runtime.length).assemble := by
      apply assemble_eq (Deployment.labelled_assembly _)
      have size : codeSize (Deployment.assembly runtime.length).instrs.toList = 14 := rfl
      rw [size, Span.maxOffset]
      decide
    have opened : preamble (UInt32.ofNat runtime.length) =
        .ok (Deployment.preamble (UInt32.ofNat runtime.length)) := rfl
    rw [if_pos fits, if_pos fits, opened, ok_bind]
    change (assemble (Deployment.assembly runtime.length) >>= _) = _
    rw [assembled]
    rfl
  · rw [if_neg fits, if_neg fits]
    rfl

theorem hex_eq (bytes : List UInt8) : hex bytes = .ok (Hex.encode bytes) := by
  have written : ∀ byte ∈ bytes, (do
      return [← hexDigit (byte.toNat / 16), ← hexDigit (byte.toNat % 16)] : Checked (List Char)) =
        .ok (Hex.encodeByte byte) := by
    intro byte _
    have bound := byte.toNat_lt
    rw [hexDigit, require_of (by omega), hexDigit, require_of (by omega)]
    rfl
  rw [hex, mapM_ok written]
  rfl

theorem generateContract_eq (select : String → Selector) {contract : Contract}
    (fits : 32 * contract.codeSize ≤ Span.maxOffset) :
    generateContract select contract = .ok (contract.generateWith select) := by
  rw [generateContract, runtimeCode_eq select fits, Contract.generateWith, ok_bind]
  cases runtimeCodeWith select contract with
  | error error => rfl
  | ok runtime =>
      dsimp only
      rw [creationCode_eq, ok_bind]
      change _ = Except.ok (Evm.creationCode runtime >>= _)
      cases Evm.creationCode runtime with
      | error error => rfl
      | ok creation =>
          dsimp only
          rw [hex_eq, hex_eq]
          rfl

theorem generate_eq (select : String → Selector) {program : Program}
    (fits : ∀ contract ∈ program.contracts, 32 * contract.codeSize ≤ Span.maxOffset) :
    generate select program = .ok (program.generateWith select) :=
  inOrder_eq fun contract member => generateContract_eq select (fits contract member)

end Covenant.Checked
