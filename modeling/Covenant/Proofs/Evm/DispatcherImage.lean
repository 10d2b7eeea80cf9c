import Covenant.Evm.Dispatcher
import Covenant.Proofs.Evm.Labels

/-! The code of a contract as an image of its instructions: these are well-formed, and each label is
bound once. -/

namespace Covenant.Evm

namespace Dispatcher

/-- The comparisons for functions whose numbers start at `start`. -/
def comparisons (select : String → Selector) (start : Nat) (functions : List Function) :
    List Instr :=
  (functions.zipIdx start).flatMap fun (function, index) =>
    comparison (select function.signature) index

/-- The stubs of functions whose numbers start at `start`. -/
def stubs (count start : Nat) (functions : List Function) : List Instr :=
  (functions.zipIdx start).flatMap fun (function, index) => stub count function index

theorem instrs_eq (select : String → Selector) (functions : List Function) :
    instrs select functions =
      head functions.length ++ comparisons select 0 functions ++ fallthrough functions.length ++
        stubs functions.length 0 functions :=
  rfl

theorem comparisons_cons (select : String → Selector) (start : Nat) (function : Function)
    (functions : List Function) :
    comparisons select start (function :: functions) =
      comparison (select function.signature) start ++
        comparisons select (start + 1) functions := by
  simp [comparisons]

theorem stubs_cons (count start : Nat) (function : Function) (functions : List Function) :
    stubs count start (function :: functions) =
      stub count function start ++ stubs count (start + 1) functions := by
  simp [stubs]

theorem stubs_append (count start : Nat) (left right : List Function) :
    stubs count start (left ++ right) =
      stubs count start left ++ stubs count (start + left.length) right := by
  simp [stubs, List.zipIdx_append]

theorem wellFormed_stub (count : Nat) (function : Function) (index : Nat) :
    ∀ instr ∈ stub count function index, instr.WellFormed := by
  have guarded : ∀ instr ∈ valueGuard count index, instr.WellFormed := by
    simp [valueGuard, refuse, Instr.WellFormed, Opcode.immediateLen]
  have loaded : ∀ instr ∈ loads function.parameters.length, instr.WellFormed := by
    unfold loads
    rw [List.forall_mem_flatMap]
    simp [Instr.WellFormed, Opcode.immediateLen]
  have finished : ∀ instr ∈ finish function.returns.isSome, instr.WellFormed := by
    cases function.returns.isSome <;> simp [finish, Instr.WellFormed, Opcode.immediateLen]
  simp only [stub, List.cons_append, List.mem_cons, List.mem_append]
  rintro instr (rfl | (inGuard | inLoads) | inFinish)
  · trivial
  · split at inGuard
    · cases inGuard
    · exact guarded instr inGuard
  · exact loaded instr inLoads
  · exact finished instr inFinish

theorem wellFormed_instrs (select : String → Selector) (functions : List Function) :
    ∀ instr ∈ instrs select functions, instr.WellFormed := by
  rw [instrs_eq]
  simp only [List.mem_append]
  rintro instr (((inHead | inComparisons) | inFallthrough) | inStubs)
  · revert instr
    simp [head, Instr.WellFormed, Opcode.immediateLen]
  · revert instr
    unfold comparisons
    rw [List.forall_mem_flatMap]
    simp [comparison, Instr.WellFormed, Opcode.immediateLen]
  · revert instr
    simp [fallthrough, refuse, Instr.WellFormed, Opcode.immediateLen]
  · obtain ⟨⟨function, index⟩, -, inside⟩ := List.mem_flatMap.1 inStubs
    exact wellFormed_stub _ function index instr inside

/-! Labels. Every label is bound once. -/

theorem boundLabels_comparisons (select : String → Selector) (start : Nat)
    (functions : List Function) : boundLabels (comparisons select start functions) = [] := by
  simp [boundLabels, comparisons, comparison, List.filterMap_flatMap]

theorem boundLabels_stub (count : Nat) (function : Function) (index : Nat) :
    boundLabels (stub count function index) =
      entry index :: if function.modifiers.payable then [] else [accepted count index] := by
  have loaded : boundLabels (loads function.parameters.length) = [] := by
    simp [boundLabels, loads, List.filterMap_flatMap]
  have finished : boundLabels (finish function.returns.isSome) = [] := by
    cases function.returns.isSome <;> rfl
  unfold stub
  rw [boundLabels_append, boundLabels_append, loaded, finished]
  cases function.modifiers.payable <;> rfl

theorem mem_boundLabels_stub {count index label : Nat} {function : Function}
    (member : label ∈ boundLabels (stub count function index)) :
    label = index ∨ label = count + 2 + index := by
  rw [boundLabels_stub, List.mem_cons] at member
  rcases member with first | second
  · exact Or.inl first
  · split at second
    · cases second
    · exact Or.inr (List.mem_singleton.1 second)

theorem mem_boundLabels_stubs {count start label : Nat} {functions : List Function}
    (member : label ∈ boundLabels (stubs count start functions)) :
    (start ≤ label ∧ label < start + functions.length) ∨
      (count + 2 + start ≤ label ∧ label < count + 2 + start + functions.length) := by
  induction functions generalizing start with
  | nil => cases member
  | cons function functions induction =>
      rw [stubs_cons, boundLabels_append, List.mem_append] at member
      rw [List.length_cons]
      rcases member with here | later
      · have options := mem_boundLabels_stub here
        omega
      · have bounds := induction later
        omega

theorem nodup_boundLabels_stubs {count start : Nat} {functions : List Function}
    (inside : start + functions.length ≤ count) :
    (boundLabels (stubs count start functions)).Nodup := by
  induction functions generalizing start with
  | nil => exact List.nodup_nil
  | cons function functions induction =>
      rw [List.length_cons] at inside
      rw [stubs_cons, boundLabels_append, List.nodup_append]
      refine ⟨?_, induction (by omega), ?_⟩
      · rw [boundLabels_stub]
        split
        · simp
        · simp [entry, accepted]
      · intro first here second later
        have options := mem_boundLabels_stub here
        have bounds := mem_boundLabels_stubs later
        omega

theorem boundLabels_instrs (select : String → Selector) (functions : List Function) :
    boundLabels (instrs select functions) =
      unmatched functions.length :: noData functions.length ::
        boundLabels (stubs functions.length 0 functions) := by
  rw [instrs_eq, boundLabels_append, boundLabels_append, boundLabels_append,
    boundLabels_comparisons]
  rfl

/-! Every label that is pushed is bound: each comparison goes to the stub of its function, and each
stub that takes no value goes on inside itself. -/

theorem bound_of_stub {count label index : Nat} {function : Function}
    (pushed : .pushLabel label ∈ stub count function index) :
    label ∈ boundLabels (stub count function index) := by
  have notLoaded : .pushLabel label ∉ loads function.parameters.length := by
    simp [loads]
  have notFinished : .pushLabel label ∉ finish function.returns.isSome := by
    cases function.returns.isSome <;> simp [finish]
  rw [boundLabels_stub]
  simp only [stub, List.cons_append, List.mem_cons, List.mem_append, notLoaded, notFinished,
    or_false] at pushed
  rcases pushed with entered | guarded
  · cases entered
  · cases payable : function.modifiers.payable with
    | true => simp [payable] at guarded
    | false =>
        obtain rfl : label = accepted count index := by
          simpa [payable, valueGuard, refuse] using guarded
        simp

theorem bound_of_instrs {select : String → Selector} {functions : List Function} {label : Nat}
    (pushed : .pushLabel label ∈ instrs select functions) :
    label ∈ boundLabels (instrs select functions) := by
  rw [boundLabels_instrs]
  have inStub {function : Function} {index : Nat} (member : (function, index) ∈ functions.zipIdx)
      (bound : label ∈ boundLabels (stub functions.length function index)) :
      label ∈ boundLabels (stubs functions.length 0 functions) := by
    rw [mem_boundLabels] at bound ⊢
    exact List.mem_flatMap.2 ⟨_, member, bound⟩
  rw [instrs_eq, List.mem_append, List.mem_append, List.mem_append] at pushed
  rcases pushed with ((inHead | inComparisons) | inFallthrough) | inStubs
  · obtain rfl : label = noData functions.length := by simpa [head] using inHead
    simp
  · obtain ⟨⟨function, index⟩, member, inside⟩ := List.mem_flatMap.1 inComparisons
    have isEntry : label = entry index := by simpa [comparison] using inside
    have entered := inStub member (by rw [boundLabels_stub, isEntry]; simp)
    simp [entered]
  · simp [fallthrough, refuse] at inFallthrough
  · obtain ⟨⟨function, index⟩, member, inside⟩ := List.mem_flatMap.1 inStubs
    have entered := inStub member (bound_of_stub inside)
    simp [entered]

theorem labelled_assembly (select : String → Selector) (functions : List Function) :
    (assembly select functions).Labelled := by
  -- The two labels of the fallthrough lie between those of the entries and those of the guards.
  have stubLabels : ∀ label ∈ boundLabels (stubs functions.length 0 functions),
      label < functions.length ∨
        (functions.length + 2 ≤ label ∧ label < labels functions.length) := by
    intro label member
    have bounds := mem_boundLabels_stubs member
    unfold labels
    omega
  refine ⟨wellFormed_instrs select functions, ?_, ?_, fun label => bound_of_instrs⟩
  · change (boundLabels (instrs select functions)).Nodup
    rw [boundLabels_instrs]
    have distinct := nodup_boundLabels_stubs (Nat.le_of_eq (Nat.zero_add functions.length))
    refine List.nodup_cons.2 ⟨?_, List.nodup_cons.2 ⟨?_, distinct⟩⟩
    · rw [List.mem_cons]
      rintro (same | member)
      · exact absurd same (by simp [unmatched, noData])
      · have bounds := stubLabels _ member
        unfold unmatched at bounds
        omega
    · intro member
      have bounds := stubLabels _ member
      unfold noData at bounds
      omega
  · change ∀ label ∈ boundLabels (instrs select functions), label < labels functions.length
    rw [boundLabels_instrs]
    intro label member
    simp only [List.mem_cons] at member
    rcases member with rfl | rfl | member
    · unfold unmatched labels
      omega
    · unfold noData labels
      omega
    · have bounds := stubLabels _ member
      unfold labels at bounds ⊢
      omega

theorem image_of_runtimeCode {select : String → Selector} {contract : Contract}
    {code : List UInt8} (assembled : runtimeCodeWith select contract = .ok code) :
    Image (instrs select contract.callable) (assembly select contract.callable).layout code :=
  (labelled_assembly select contract.callable).image assembled

end Dispatcher

end Covenant.Evm
