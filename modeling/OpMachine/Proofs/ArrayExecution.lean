import OpMachine.Proofs.ScalarExecution

namespace OpMachine

/-!
# Instructions on arrays

What the instructions that make arrays and that access their elements do.  Each
of them is a question to the heap, with an answer and the heap after it:
`Execute.Answers`.  A failure leaves the heap as it is.  The frame that a
failure leaves has no influence on the end of the run and is left open.
-/

/-! ## Sizes and positions -/

/-- A size that the compiler writes into the code is read as the same number. -/
theorem Value.integers_size (small : size < 0x80000000) :
    integers [.int (.ofNat size)] = .ok [(size : Int)] := by
  have whole : (Int32.ofNat size).toInt = size := Int32.toInt_ofNat_of_lt small
  have low : -0x8000000000000000 ≤ (size : Int) := by omega
  have high : (size : Int) ≤ 0x7fffffffffffffff := by omega
  have read : Conversion.readInt64 (.int (.ofNat size)) = .ok (.ofInt size) := by
    simp only [Conversion.readInt64, Conversion.readInteger, integer?, whole,
      if_pos (And.intro low high)]
    rfl
  have same : (Int64.ofInt size).toInt = size :=
    Int64.toInt_ofInt_of_le low (by omega)
  simp only [integers, List.mapM_cons, List.mapM_nil, read]
  exact congrArg (fun number => Except.ok [number]) same

/-! ## Items of arrays -/

theorem ArrayCell.offsetFrom_eq {dimensions : List Nat} {indices : List Int}
    (rank : indices.length = dimensions.length) (start : Nat) :
    offsetFrom dimensions start indices
      = (start * dimensions.foldr (· * ·) 1 + ·) <$> itemsBefore dimensions indices := by
  induction dimensions generalizing indices start with
  | nil =>
    cases indices with
    | nil => exact congrArg Except.ok (Nat.mul_one start).symm
    | cons => cases rank
  | cons dimension dimensions ih =>
    cases indices with
    | nil => cases rank
    | cons index indices =>
      unfold offsetFrom itemsBefore
      split
      · rw [ih (Nat.succ.inj rank)]
        cases itemsBefore dimensions indices with
        | error => rfl
        | ok =>
          refine congrArg Except.ok ?_
          simp only [List.foldr_cons, Nat.add_mul, Nat.mul_assoc, Nat.add_assoc]
      · rfl

theorem ArrayCell.offset_eq_position (cell : ArrayCell) (indices : List Int) :
    cell.offset indices = cell.position indices := by
  unfold offset position rank
  by_cases isRank : indices.length = cell.dimensions.length
  · rw [if_pos isRank, if_pos isRank, offsetFrom_eq isRank]
    cases itemsBefore cell.dimensions indices with
    | error => rfl
    | ok => exact congrArg Except.ok (by simp only [Nat.zero_mul, Nat.zero_add])
  · rw [if_neg isRank, if_neg isRank]

namespace Heap

variable (heap : Heap)

theorem item_eq (ref : ArrayRef) (indices : List Int) :
    heap.item ref indices = (heap.array ref).get indices := by
  rw [item, ArrayCell.get, ArrayCell.offset_eq_position]

theorem withItem_eq (ref : ArrayRef) (indices : List Int) (value : Value) :
    heap.withItem ref indices value = heap.setItem ref indices value := by
  rw [withItem, setItem, ArrayCell.offset_eq_position]

theorem copies_shared (shared : value.isShared = true) (count : Nat) (items : Array Value) :
    heap.copies value count items = (items ++ Array.replicate count value, heap) := by
  induction count generalizing items with
  | zero => rw [copies, Array.replicate_zero, Array.append_empty]
  | succ _ ih =>
    rw [copies, Execute.copied_shared shared]
    refine (ih (items.push value)).trans ?_
    rw [Array.replicate_succ', Array.push_eq_append, Array.append_assoc]

theorem withArray_eq (element : TypeHash) (dimensions : List Nat) :
    heap.withArray element dimensions
      = heap.newArray element dimensions (Catalog.defaultValue element) := by
  simp only [withArray, newArray, copies_shared heap (Catalog.defaultValue_shared element),
    Array.empty_append]

end Heap

namespace Execute

variable {α β : Type} {catalog : Catalog} {heap : Heap} {frame : Frame} {value : Value}
  {rest : List Value}

/-! ## Parts of instructions -/

theorem bind_of_same (same : action before = other start) (next : α -> Execute β) :
    (action >>= next) before = (other >>= next) start := by
  simp only [bind, EStateM.bind, same]

theorem popIndices_run (count : rank.toNat = indices.length)
    (operands : frame.operands = indices.reverse ++ rest) :
    popIndices rank ⟨frame, heap⟩
      = check (Value.integers indices) ⟨{ frame with operands := rest }, heap⟩ := by
  have popped : popMany indices.length ⟨frame, heap⟩ = _ := popMany_run operands
  unfold popIndices Value.integers
  rw [count, bind_of_ok popped]
  cases indices.mapM Conversion.readInt64 with
  | ok | error => rfl

theorem dimensions_eq (sizes : List Int) : dimensions sizes = check (Heap.extents sizes) := by
  induction sizes with
  | nil => rfl
  | cons size rest ih =>
    unfold dimensions Heap.extents
    split
    · rfl
    · rw [ih]
      cases Heap.extents rest with
      | ok | error => rfl

theorem expectArray_eq (value : Value) : expectArray value = check value.toArray := by
  cases value <;> rfl

/-! ## Answers of the heap -/

/-- An instruction does what a question to the heap says.  The answer decides
about the frame that follows. -/
def Answers (heap : Heap) (next : α -> Frame)
    (done : EStateM.Result RuntimeError Running Continuation) :
    Except RuntimeError (α × Heap) -> Prop
  | .ok (answer, later) => done = .ok .next ⟨next answer, later⟩
  | .error error => ∃ frame : Frame, done = .error error ⟨frame, heap⟩

theorem answers_check (result : Except RuntimeError β)
    (onAnswer : ∀ answer, Answers heap place (next answer ⟨frame, heap⟩) (step answer)) :
    Answers heap place ((check result >>= next) ⟨frame, heap⟩) (result >>= step) := by
  cases result with
  | ok answer => exact onAnswer answer
  | error => exact ⟨frame, rfl⟩

section

variable {rank : UInt8} {array : Value} {indices : List Value}

theorem instruction_loadElement (holds : frame.Faces (.withByte .loadElement rank rfl))
    (count : rank.toNat = indices.length)
    (operands : frame.operands = indices.reverse ++ array :: rest) :
    Answers heap (fun value => frame.past 2 (value :: rest)) (instruction catalog ⟨frame, heap⟩) (do
        let (ref, places) ← array.element indices
        return (← (heap.array ref).get places, heap)) := by
  have indexed : popIndices rank ⟨frame.past 2, heap⟩ = _ :=
    popIndices_run count operands
  rw [instruction_withByte catalog holds rfl, bind_of_same indexed, Value.element, bind_assoc]
  refine answers_check _ fun places => ?_
  rw [bind_of_ok (pop_run rfl), expectArray_eq, bind_assoc]
  refine answers_check _ fun ref => ?_
  exact answers_check _ fun value => rfl

/-- The value is popped first, but nothing is checked before the indices. -/
theorem instruction_storeElement (holds : frame.Faces (.withByte .storeElement rank rfl))
    (count : rank.toNat = indices.length) (shared : value.isShared = true)
    (operands : frame.operands = value :: (indices.reverse ++ array :: rest)) :
    Answers heap (fun _ : Unit => frame.past 2 rest) (instruction catalog ⟨frame, heap⟩) (do
        let (ref, places) ← array.element indices
        return ((), ← heap.setItem ref places value)) := by
  have popped : popCopied ⟨frame.past 2, heap⟩ = _ :=
    popCopied_run operands shared
  rw [instruction_withByte catalog holds rfl, bind_of_ok popped,
    bind_of_same (popIndices_run count rfl), Value.element, bind_assoc]
  refine answers_check _ fun places => ?_
  rw [bind_of_ok (pop_run rfl), expectArray_eq, bind_assoc]
  refine answers_check _ fun ref => ?_
  exact answers_check _ fun later => rfl

theorem instruction_newArray {element : TypeHash}
    (holds : frame.Faces (.withCount .newArray index rank rfl))
    (found : frame.method.pool.get? index.toNat = some (.hash element))
    (count : rank.toNat = indices.length) (operands : frame.operands = indices.reverse ++ rest) :
    Answers heap (fun ref => frame.past 4 (.array ref :: rest)) (instruction catalog ⟨frame, heap⟩)
      (do
        let sizes ← Value.integers indices
        let dimensions ← Heap.extents sizes
        heap.newArray element dimensions (Catalog.defaultValue element)) := by
  have hashRead : readHash ⟨frame.past 1, heap⟩ = _ :=
    readHash_run ⟨holds.2.1, holds.2.2.1, trivial⟩ found
  have rankRead : readByte ⟨frame.past 3, heap⟩ = _ :=
    readByte_of_holds holds.2.2.2
  have indexed : popIndices rank ⟨frame.past 4, heap⟩ = _ :=
    popIndices_run count operands
  rw [instruction_of_holds holds]
  change Answers _ _ (newArray _) _
  unfold newArray
  rw [bind_of_ok hashRead, bind_of_ok rankRead, bind_of_same indexed]
  refine answers_check _ fun sizes => ?_
  rw [dimensions_eq]
  refine answers_check _ fun dimensions => ?_
  rw [← bind_pure (heap.newArray element dimensions (Catalog.defaultValue element))]
  exact answers_check _ fun answer => rfl

end

end Execute
end OpMachine
