import OpMachine.Proofs.ArrayExecution
import OpMachine.Proofs.ScalarSimulation

namespace OpMachine

/-!
# Compiled bodies with arrays compute what their trees mean

The code of an element access, of an assignment to an element and of an array
creation follows the evaluation.  Array, indices and value are evaluated in this
order and once each, because the code of each of them stands in the whole code
once; for a compound assignment the values of array and indices go through
temporaries.  The element is found last, by one instruction that checks the
indices, or by two: in a compound assignment a load stands between the indices
and the value.

With these cases `Situation.Follows.of_translates` puts together what is known
about all parts of a tree.
-/

/-! ## Heaps without objects in arrays -/

variable {value : Value}

namespace Heap.SharesItems

variable {heap later : Heap} {ref : ArrayRef}

theorem withArray (shares : heap.SharesItems) {element : TypeHash}
    (made : heap.withArray element dimensions = .ok (ref, later)) : later.SharesItems := by
  cases counted : itemCount dimensions with rw [Heap.withArray, counted] at made
  | error => cases made
  | ok =>
    cases made
    intro cell member
    rcases Array.mem_push.mp member with before | rfl
    · exact shares cell before
    · intro item inside
      rw [Array.eq_of_mem_replicate inside]
      exact Catalog.defaultValue_shared element

theorem withItem (shares : heap.SharesItems) (shared : value.isShared = true)
    (stored : heap.withItem ref indices value = .ok later) : later.SharesItems := by
  cases found : (heap.array ref).position indices with rw [Heap.withItem, found] at stored
  | error => cases stored
  | ok =>
    cases stored
    intro cell member
    obtain ⟨_, inside, rfl⟩ := Array.mem_iff_getElem.mp member
    rw [Array.size_modify] at inside
    rw [Array.getElem_modify]
    split
    · intro item itemMember
      rcases Array.mem_or_eq_of_mem_setIfInBounds itemMember with before | rfl
      · exact shares _ (Array.getElem_mem inside) item before
      · exact shared
    · exact shares _ (Array.getElem_mem inside)

theorem item (shares : heap.SharesItems) {ref : ArrayRef}
    (found : heap.item ref indices = .ok value) : value.isShared = true := by
  have items : ∀ item, item ∈ (heap.array ref).items -> item.isShared = true := by
    by_cases inside : ref.index < heap.arrays.size
    · have isCell : heap.array ref = heap.arrays[ref.index] := by
        rw [array, Array.getD_eq_getD_getElem?, Array.getElem?_eq_getElem inside, Option.getD_some]
      rw [isCell]
      exact shares _ (Array.getElem_mem inside)
    · have isDefault : heap.array ref = default := by
        rw [array, Array.getD_eq_getD_getElem?, Array.getElem?_eq_none (Nat.le_of_not_lt inside),
          Option.getD_none]
      rw [isDefault]
      exact fun item member => absurd member (Array.not_mem_empty item)
  cases located : (heap.array ref).position indices with rw [Heap.item, located] at found
  | error => cases found
  | ok position =>
    cases found
    rw [Array.getD_eq_getD_getElem?]
    cases present : (heap.array ref).items[position]? with
    | none => rfl
    | some item => exact items item (Array.mem_of_getElem? present)

end Heap.SharesItems

/-! ## Questions to the heap -/

namespace Perform

variable {α β : Type}

theorem check_bind_change (result : Except RuntimeError α)
    (step : α -> Heap -> Except RuntimeError (β × Heap)) :
    (check result >>= fun answer => change (step answer))
      = change fun heap => result >>= fun answer => step answer heap := by
  cases result with
  | ok | error => rfl

theorem change_run (step : Heap -> Except RuntimeError (α × Heap)) (world : World) :
    change step world = match step world.heap with
      | .ok (answer, heap) => .ok answer { world with heap }
      | .error error => .error (.failed error) world := by
  have unfolded : change step world = (do
      let given ← check (step world.heap)
      modify fun world => { world with heap := given.2 }
      return given.1 : Perform α) world := rfl
  rw [unfolded]
  cases step world.heap with
  | ok | error => rfl

theorem ask_eq_change (question : Heap -> Except RuntimeError α) :
    ask question = change fun heap => do return (← question heap, heap) := by
  funext world
  have unfolded : ask question world = check (question world.heap) world := rfl
  rw [unfolded, change_run]
  cases question world.heap with
  | ok | error => rfl

theorem writeElement_eq (array : Value) (indices : List Value) (value : Value) :
    writeElement array indices value = change fun heap => do
      let (ref, places) ← array.element indices
      return ((), ← heap.withItem ref places value) := by
  rw [← check_bind_change]
  rfl

end Perform

open Perform (check create readElement)

namespace Situation

variable {α β : Type} {situation : Situation} {rounds : Nat} {taken : List Value}
  {code : MarkedCode} {Good : α -> Prop}

/-- An instruction that asks the heap follows the same question in an
evaluation. -/
theorem Simulates.change {step : Heap -> Except RuntimeError (α × Heap)} {pushed : α -> List Value}
    (answers : ∀ (frame : Frame) (rest : List Value) (heap : Heap),
      frame.method = situation.method -> frame.operands = taken ++ rest -> frame.At code ->
        Execute.Answers heap (fun answer => { frame with
            operands := pushed answer ++ rest
            position := frame.position + code.size })
          (Execute.instruction situation.host.catalog ⟨frame, heap⟩) (step heap))
    (good : ∀ (heap : Heap) (answer : α) (later : Heap), heap.SharesItems ->
      step heap = .ok (answer, later) -> Good answer ∧ later.SharesItems)
    (shares : situation.heap.SharesItems) :
    situation.Simulates rounds taken code (Perform.change step) Good
      fun answer => .on (pushed answer) := by
  intro frame rest world isMethod operands placed held
  have answered := answers frame rest world.heap isMethod operands placed
  rw [Perform.change_run]
  cases outcome : step world.heap with rw [outcome] at answered
  | error =>
    obtain ⟨_, executes⟩ := answered
    exact running_error executes
  | ok given =>
    obtain ⟨goodAnswer, laterShares⟩ := good world.heap given.1 given.2 (held.heap shares) outcome
    refine .reached (.single (running_next answered)) (.here ⟨goodAnswer, ?_⟩)
    exact ⟨_, rfl, ⟨rfl, rfl, rfl, fun _ _ => rfl⟩, held.store, fun _ => laterShares⟩

section

variable {rank : UInt8} {array : Value} {indices : List Value}

variable (shares : situation.heap.SharesItems)

include shares

theorem Simulates.loadElement (count : rank.toNat = indices.length) :
    situation.Simulates rounds (indices.reverse ++ [array])
      (.single (.withByte .loadElement rank rfl)) (readElement array indices) Shared
      fun value => .on [value] := by
  simp only [readElement, Perform.ask_eq_change, Perform.check_bind_change]
  refine .change (fun frame rest heap isMethod operands placed => ?_) ?_ shares
  · rw [List.append_assoc] at operands
    simp only [Heap.item_eq]
    exact Execute.instruction_loadElement placed.single count operands
  · intro heap value later itemsShared answers
    obtain ⟨_, _, found⟩ := Catalog.ok_of_bind answers
    obtain ⟨item, isItem, given⟩ := Catalog.ok_of_bind found
    cases given
    exact ⟨itemsShared.item isItem, itemsShared⟩

theorem Simulates.storeElement
    (count : rank.toNat = indices.length) (shared : Shared value) :
    situation.Simulates rounds (value :: (indices.reverse ++ [array]))
      (.single (.withByte .storeElement rank rfl)) (Perform.writeElement array indices value)
      (fun _ => True) fun _ => .on [] := by
  rw [Perform.writeElement_eq]
  refine .change (fun frame rest heap isMethod operands placed => ?_) ?_ shares
  · rw [List.cons_append, List.append_assoc] at operands
    simp only [Heap.withItem_eq]
    exact Execute.instruction_storeElement placed.single count shared operands
  · intro heap _ later itemsShared answers
    obtain ⟨_, _, found⟩ := Catalog.ok_of_bind answers
    obtain ⟨after, isAfter, given⟩ := Catalog.ok_of_bind found
    cases given
    exact ⟨trivial, itemsShared.withItem shared isAfter⟩

/-- The sizes of a new array are checked together with the array itself. -/
theorem Simulates.newArray {element : TypeHash}
    (present : situation.method.pool.Has index.toNat (.hash element)) (indices : List Value)
    (count : rank.toNat = indices.length) :
    situation.Simulates rounds indices.reverse (.single (.withCount .newArray index rank rfl)) (do
        let sizes ← check (Value.integers indices)
        let dimensions ← check (Heap.extents sizes)
        create element dimensions) (fun _ => True) fun ref => .on [.array ref] := by
  simp only [create, Perform.check_bind_change]
  refine .change (fun frame rest heap isMethod operands placed => ?_) ?_ shares
  · simp only [Heap.withArray_eq]
    exact Execute.instruction_newArray placed.single (isMethod ▸ present.hash) count operands
  · intro heap ref later itemsShared answers
    obtain ⟨_, _, sized⟩ := Catalog.ok_of_bind answers
    obtain ⟨dimensions, _, made⟩ := Catalog.ok_of_bind sized
    exact ⟨trivial, itemsShared.withArray made⟩

end

theorem Simulates.known {Good : Value -> Prop}
    (pushes : situation.Simulates rounds [] code (pure value) Good fun value => .on [value]) :
    situation.Simulates rounds [] code (pure ()) (fun _ => True) fun _ => .on [value] := by
  intro frame rest world isMethod operands placed held
  obtain ⟨next, reaches, _, arrives⟩ := pushes frame rest world isMethod operands placed held
  exact ⟨next, reaches, trivial, arrives⟩

theorem Simulates.size {size : Nat} (loads : Emit.LoadsSize situation.method.pool size code) :
    situation.Simulates rounds [] code (pure ()) (fun _ => True)
      fun _ => .on [.int (.ofNat size)] :=
  (constant loads.2 rfl rfl rfl).known

theorem Simulates.regroup
    (simulates : situation.Simulates rounds taken (first ++ (second ++ third) ++ fourth) action
      Good passage) :
    situation.Simulates rounds taken (first ++ (second ++ (third ++ fourth))) action Good
      passage := by
  intro frame rest world isMethod operands placed held
  have regrouped : frame.At (first ++ (second ++ third) ++ fourth) := by
    simp only [Frame.At, Code.bytes_append, List.append_assoc] at placed ⊢
    exact placed
  refine (simulates frame rest world isMethod operands regrouped held).arriving ?_
  intro heap next others advances
  refine ⟨next, .refl _, ⟨advances.method, ?_, advances.operands, fun slot avoids => ?_⟩, rfl, rfl⟩
  · simp only [advances.position, Code.size_append, Nat.add_assoc]
  · refine advances.locals slot ?_
    simp only [MarkedCode.Avoids, Code.every_append, and_assoc] at avoids ⊢
    exact avoids

end Situation

/-! ## Types of arrays -/

variable {info : Info} {element : TypeHash} {evaluator : Evaluator}

theorem Compile.Obtains.elementType (typeOf : evaluator.typeOf = origin.denoted?)
    (found : Obtains outer origin depth finished (arrayType info) (element, rank)) :
    evaluator.elementType info = some element ∧ rank < 256 := by
  obtain ⟨_, _, sound, _, runs, _⟩ := found.run
  unfold arrayType at runs
  cases typed : info.type with rw [typed] at runs
  | none => cases runs
  | some descriptor =>
    cases descriptor with
    | array _ dimensions =>
      obtain ⟨_, _, resolved, closes⟩ := ok_of_bind runs
      obtain ⟨closed, last, _, given⟩ := ok_of_bind closes
      cases closed with
      | none => cases given
      | some =>
        cases given
        refine ⟨?_, dimensions.toNat_lt⟩
        rw [Evaluator.elementType, typed, typeOf]
        exact denoted_of_resolve sound resolved
    | _ => cases runs

/-! ## Compound assignments -/

/-- The receiver and the places of a compound assignment as one list of values. -/
theorem Evaluator.update_element (evaluator : Evaluator) (order : UpdateOrder)
    (operator : BinaryOperator) (operand : Perform Value) :
    evaluator.update order operator operand (.element info array indices) = ((do
      let receiver ← evaluator.perform order array
      let places ← evaluator.performAll order indices
      return receiver :: places) >>= fun values =>
        updateElement order (values.headD .void) values.tail operator operand) := by
  simp only [update, bind_assoc, pure_bind, List.headD_cons, List.tail_cons]

namespace Situation

variable {situation : Situation} {outer : Surroundings} {origin : Catalog}
  {finished : Body} {callable : MethodSymbol -> Prop} {evaluator : Evaluator} {depth low : Nat}
  {info : Info} {array value head : Operation} {indices tail items : List Operation}
  {first second third code : MarkedCode} {use : ValueUse} {slot index : UInt16}
  {slots : List UInt16} {element : TypeHash}

private theorem toNat_count {count : Nat} (few : count < 256) : count.toUInt8.toNat = count :=
  Nat.mod_eq_of_lt few

/-! ## Elements -/

theorem Follows.loadElement (few : indices.length < 256)
    (operand : situation.Follows callable evaluator (.value .kept array) first)
    (operands : situation.Follows callable evaluator (.values indices) second) :
    situation.Follows callable evaluator (.shape (.element info array indices))
      (first ++ (second ++ .single (.withByte .loadElement indices.length.toUInt8 rfl))) := by
  rintro ⟨produces, shares, ⟨arrayProduces, arrayComputes⟩, allCompute⟩
  refine .produced produces ?_
  refine .bind (operand arrayComputes fun _ => arrayProduces) fun receiver _ => ?_
  refine .bind (.above (operands allCompute) [receiver]) fun places ⟨count, _⟩ => ?_
  exact .loadElement shares ((toNat_count few).trans count.symm)

variable (understands : situation.Understands outer origin finished callable evaluator)

include understands

theorem Follows.storeElement (few : indices.length < 256)
    (object : situation.Follows callable evaluator (.value .kept array) first)
    (operands : situation.Follows callable evaluator (.values indices) second)
    (operand : situation.Follows callable evaluator (.value .kept value) third)
    (above : Compile.StoresAbove finished low
      (.single (.withByte .storeElement indices.length.toUInt8 rfl)) use fourth) :
    situation.Follows callable evaluator (.store use (.element info array indices) value)
      (first ++ (second ++ (third ++ fourth))) := by
  rintro _ ⟨_, ⟨shares, ⟨arrayProduces, arrayComputes⟩, allCompute⟩, produces, computes⟩
  refine .bind (object arrayComputes fun _ => arrayProduces) fun receiver _ => ?_
  refine .bind (.above (operands allCompute) [receiver]) fun places ⟨count, _⟩ => ?_
  refine .bind (.above (operand computes fun _ => produces)
    (places.reverse ++ [receiver])) fun result good => ?_
  exact .storesAbove understands.table above good (fun _ => MarkedCode.avoids_single nofun)
    (.storeElement shares ((toNat_count few).trans count.symm) good)

theorem Follows.updateElement (few : indices.length < 256)
    (onArray : situation.Follows callable evaluator (.value .kept array) object)
    (temporary : finished.Temporary low slot) (avoids : spilled.Avoids slot)
    (onIndices : situation.Follows callable evaluator (.spills indices slots) spilled)
    (operand : situation.Follows callable evaluator (.value .kept value) first)
    (operates : Compile.Operates operator.opcodes operation)
    (above : Compile.StoresAbove finished low
      (.single (.withByte .storeElement indices.length.toUInt8 rfl)) use second) :
    situation.Follows callable evaluator (.update use operator (.element info array indices) value)
      (object ++ (MarkedCode.setLocal slot ++ (spilled
        ++ (MarkedCode.reload (slot :: slots) ++ (MarkedCode.reload (slot :: slots)
          ++ (.single (.withByte .loadElement indices.length.toUInt8 rfl)
            ++ (first ++ (operation ++ second)))))))) := by
  rintro _ ⟨_, ⟨shares, ⟨arrayProduces, arrayComputes⟩, allCompute⟩, produces, computes⟩
  obtain ⟨sameCount, spills⟩ := onIndices
  have spilling := Spills.cons understands.table temporary avoids
    (onArray arrayComputes fun _ => arrayProduces) (spills allCompute)
  rw [Evaluator.perform, Evaluator.update_element]
  refine .regroup (spilling.reloaded fun values shared => ?_)
  cases values with
  | nil => cases shared.1
  | cons _ places =>
    have count : indices.length.toUInt8.toNat = places.length :=
      ((toNat_count few).trans sameCount.symm).trans (Nat.succ.inj shared.1).symm
    rw [List.reverse_cons]
    simp only [List.headD_cons, List.tail_cons, Evaluator.updateElement, pure_bind]
    refine .bind (.above (.loadElement shares count) _) fun old _ => ?_
    refine .bind (.above (operand computes fun _ => produces) _) fun new _ => ?_
    refine .bind (.above (.binary operator old new operates) _) fun result good => ?_
    exact .storesAbove understands.table above good
      (fun _ => MarkedCode.avoids_single nofun) (.storeElement shares count good)

theorem Follows.spill (operand : situation.Follows callable evaluator (.value .kept head) first)
    (temporary : finished.Temporary low slot) (avoids : second.Avoids slot)
    (later : situation.Follows callable evaluator (.spills tail slots) second) :
    situation.Follows callable evaluator (.spills (head :: tail) (slot :: slots))
      (first ++ (MarkedCode.setLocal slot ++ second)) := by
  obtain ⟨sameCount, spills⟩ := later
  refine ⟨congrArg (· + 1) sameCount, ?_⟩
  rintro ⟨⟨produces, computes⟩, tailComputes⟩
  exact .cons understands.table temporary avoids (operand computes fun _ => produces)
    (spills tailComputes)

/-! ## Creations -/

theorem Follows.newArray
    (found : Compile.Obtains outer origin depth finished (Compile.arrayType info)
      (element, sizes.length))
    (operands : situation.Follows callable evaluator (.values sizes) first)
    (type : finished.emitter.pool.Has index.toNat (.hash element)) :
    situation.Follows callable evaluator (.shape (.arrayCreation info sizes none))
      (first ++ .single (.withCount .newArray index sizes.length.toUInt8 rfl)) := by
  rintro ⟨produces, shares, allCompute⟩
  obtain ⟨known, few⟩ := found.elementType understands.typeOf
  refine .produced produces ?_
  refine Simulates.bind (operands allCompute) fun values ⟨count, _⟩ => ?_
  simp only [Evaluator.newArray, known]
  rw [← understands.pool] at type
  have creates : situation.Simulates evaluator.rounds values.reverse _ _ Shared
      fun value => .on [value] :=
    (Simulates.newArray shares type values ((toNat_count few).trans count.symm)).answering
      Value.array fun _ _ => ⟨rfl, rfl⟩
  simp only [bind_assoc] at creates
  exact creates

omit understands

/-- A new array and the items that are stored in it. -/
theorem Simulates.filled
    (creates : situation.Simulates evaluator.rounds taken first action (fun _ => True)
      fun ref => .on [.array ref])
    (stored : ∀ ref, situation.Simulates evaluator.rounds [.array ref] second
      (evaluator.fill .readFirst ref 0 items) (fun _ => True) fun _ => .on [.array ref]) :
    situation.Simulates evaluator.rounds taken (first ++ second) (do
      let ref ← action
      evaluator.fill .readFirst ref 0 items
      return .array ref) Shared fun value => .on [value] :=
  creates.bind fun ref _ =>
    (stored ref).answering (fun _ => Value.array ref) fun _ _ => ⟨Eq.refl true, rfl⟩

variable (understands : situation.Understands outer origin finished callable evaluator)

include understands

theorem Follows.newVector
    (found : Compile.Obtains outer origin depth finished (Compile.arrayType info) (element, 1))
    (length : Emit.LoadsSize finished.emitter.pool items.length first)
    (type : finished.emitter.pool.Has index.toNat (.hash element))
    (stored : situation.Follows callable evaluator (.items 0 items) second) :
    situation.Follows callable evaluator (.shape (.arrayCreation info [] (some items)))
      (first ++ (.single (.withCount .newArray index 1 rfl) ++ second)) := by
  rintro ⟨produces, shares, _, allCompute⟩
  have known := (found.elementType understands.typeOf).1
  refine .produced produces ?_
  rw [Evaluator.perform, Evaluator.newArray, known]
  rw [← understands.pool] at length type
  -- The size is a constant of the code, so neither of its checks can fail.
  have creates : situation.Simulates evaluator.rounds [.int (.ofNat items.length)]
      (.single (.withCount .newArray index 1 rfl)) (do
        let sizes ← check (Value.integers [.int (.ofNat items.length)])
        let dimensions ← check (Heap.extents sizes)
        create element dimensions) (fun _ => True) fun ref => .on [.array ref] :=
    .newArray shares type [_] rfl
  rw [Value.integers_size length.1] at creates
  exact (Simulates.size length).after (.filled creates fun ref => stored ref shares allCompute)

theorem Follows.newSizedVector
    (found : Compile.Obtains outer origin depth finished (Compile.arrayType info) (element, 1))
    (operands : situation.Follows callable evaluator (.values [size]) first)
    (type : finished.emitter.pool.Has index.toNat (.hash element))
    (stored : situation.Follows callable evaluator (.items 0 items) second) :
    situation.Follows callable evaluator (.shape (.arrayCreation info [size] (some items)))
      (first ++ (.single (.withCount .newArray index 1 rfl) ++ second)) := by
  rintro ⟨produces, shares, sizeComputes, allCompute⟩
  have known := (found.elementType understands.typeOf).1
  refine .produced produces ?_
  rw [← understands.pool] at type
  rw [Evaluator.perform]
  · refine .bind (operands sizeComputes) fun values ⟨count, _⟩ => ?_
    simp only [Evaluator.newArray, known]
    have isRank : UInt8.toNat 1 = values.length := count.symm
    have filled := Simulates.filled (Simulates.newArray shares type values isRank)
      fun ref => stored ref shares allCompute
    simp only [bind_assoc] at filled
    exact filled
  · exact nofun

theorem Follows.moreItems (index : Emit.LoadsSize finished.emitter.pool position first)
    (item : situation.Follows callable evaluator (.value .kept head) second)
    (later : situation.Follows callable evaluator (.items (position + 1) tail) third) :
    situation.Follows callable evaluator (.items position (head :: tail))
      (MarkedCode.dup ++ (first ++ (second
        ++ (.single (.withByte .storeElement 1 rfl) ++ third)))) := by
  rintro ref shares ⟨⟨produces, computes⟩, tailComputes⟩
  rw [← understands.pool] at index
  refine (Simulates.dup (.array ref)).after ?_
  refine ((Simulates.size index).above [.array ref, .array ref]).after ?_
  refine .bind (.above (item computes fun _ => produces) _) fun value good => ?_
  have stores : situation.Simulates evaluator.rounds
      (value :: ([.int (.ofNat position)].reverse ++ [.array ref])) _ _ _ _ :=
    .storeElement shares (Eq.refl (UInt8.toNat 1)) good
  rw [Perform.writeElement_eq, Value.element, Value.integers_size index.1] at stores
  exact (stores.above [.array ref]).bind fun _ _ => later ref shares tailComputes

omit understands

theorem Follows.marked
    (inner : situation.Follows callable evaluator (.statement returnsValue operation) code) :
    situation.Follows callable evaluator (.statement returnsValue operation) (.marked mark code) :=
  fun returns computes => (inner returns computes).marked

/-! ## All cases -/

/-- The code of every part of a tree follows the evaluation of that part. -/
theorem Follows.of_translates
    (understands : situation.Understands outer origin finished callable evaluator)
    (translates : Compile.Translates outer origin finished depth low task code) (fits : code.Fits) :
    situation.Follows callable evaluator task code := by
  -- The cases are those of the translation.  A rule for a shape that the
  -- evaluation does not know is excluded by the tree itself.
  induction translates with
  | kept _ onShape =>
    intro computes produces
    have pushed := onShape fits computes
    rw [produces rfl] at pushed
    exact pushed.marked
  | dropped _ produces onShape =>
    exact fun computes keeps => (dropped (onShape fits.1) produces computes keeps).marked
  | droppedNothing _ producesNothing onShape =>
    intro computes _
    have nothing := onShape fits computes
    rw [producesNothing] at nothing
    exact nothing.marked
  | assignment _ onStore => exact fun computes _ => (onStore fits _ computes).marked
  | compoundAssignment _ onUpdate => exact fun computes _ => (onUpdate fits _ computes).marked
  | parenthesized _ onInner =>
    intro computes produces
    exact (onInner fits computes.2 fun use => computes.1 ▸ produces use).marked
  | literal isLiteral loads => exact .literal understands isLiteral loads
  | parameter found =>
    rintro ⟨produces, inside⟩
    rw [understands.table] at inside
    have storedAt := Compile.storedAt_parameter found inside
    rw [← understands.table] at storedAt
    exact .produced produces (.load finished.emitter.pool storedAt rfl)
  | localVariable found =>
    intro produces
    have storedAt : (Variable.localVariable _).StoredAt situation.table (.localVariable _) :=
      understands.table ▸ found
    exact .produced produces (.load finished.emitter.pool storedAt rfl)
  | binary _ _ operates onLeft onRight =>
    exact .binary (onLeft fits.1) (onRight fits.2.1) operates
  | unary _ operates onInner => exact .unary (onInner fits.1) operates
  | conversion targetFound sourceFound _ converts onInner =>
    exact .conversion understands targetFound sourceFound (onInner fits.1) converts
  | conditional _ _ _ onTest onWhenTrue onWhenFalse =>
    exact .conditional fits (onTest fits.1) (onWhenTrue fits.2.2.2.1) (onWhenFalse fits.2.2.2.2)
  | call found without few _ calls onOperands =>
    exact .call understands found without few (onOperands fits.1) calls
  | noValues =>
    intro _
    exact .nothing List.reverse [] ⟨rfl, nofun⟩
  | moreValues _ _ onHead onTail => exact .moreValues (onHead fits.1) (onTail fits.2)
  | storeSimple found _ stores onOperand =>
    exact .storeSimple understands found (onOperand fits.1) stores
  | storeParenthesized _ onInner | updateParenthesized _ onInner => exact onInner fits
  | updateSimple found loads _ operates stores onOperand =>
    exact .updateSimple understands found loads (onOperand fits.2.1) operates stores
  | block _ onInner => exact fun returns computes => (onInner fits returns computes).marked
  | declaration found _ onStart =>
    exact .marked (.declaration understands found (onStart fits.1))
  | defaultDeclaration found isType present =>
    exact .marked (.defaultDeclaration understands found isType present)
  | returnValue _ onOperand => exact .marked (.returnValue (onOperand fits.1))
  | returnDropped _ onOperand => exact .marked (.returnDropped (onOperand fits.1))
  | returnNothing =>
    intro returns _
    rw [Evaluator.act, ← returns]
    exact .marked (.returnVoid (Eq.refl true) rfl)
  | whileLoop _ _ onTest onRepeated =>
    exact .marked (.whileLoop fits (onTest fits.2.1) (onRepeated fits.2.2))
  | onlyIf _ _ _ onTest onWhenTrue =>
    exact .marked (.onlyIf fits (onTest fits.1) (onWhenTrue fits.2.2))
  | ifElse untyped _ _ _ onTest onWhenTrue onWhenFalse =>
    exact .marked (.ifElse fits untyped (onTest fits.1)
      (onWhenTrue fits.2.2.2.1) (onWhenFalse fits.2.2.2.2))
  | expressionStatement _ onInner =>
    intro _ computes
    exact (Simulates.answering (onInner fits computes nofun) (fun _ => Flow.next)
      fun _ _ => ⟨trivial, rfl⟩).marked
  | evaluated isExpression _ onInner =>
    exact .marked (.evaluated isExpression (onInner fits))
  | noStatements =>
    intro _ _
    have idle : situation.Simulates evaluator.rounds [] .empty (pure Flow.next) (· = .next)
        fun _ => .on [] := .nothing (fun _ => []) _ rfl
    exact idle.mono fun flow isNext => isNext ▸ ⟨trivial, rfl⟩
  | moreStatements _ _ onHead onTail => exact .moreStatements (onHead fits.1) (onTail fits.2)
  | statementBody asStatement _ onInner => exact .statementBody asStatement (onInner fits.1)
  | valueBody asExpression produces _ onInner =>
    exact .valueBody asExpression produces (onInner fits.1)
  | effectBody asExpression _ onInner => exact .effectBody asExpression (onInner fits.1)
  | element _ few _ _ onOperand onOperands =>
    exact .loadElement few (onOperand fits.1) (onOperands fits.2.1)
  | newArray found _ type onOperands =>
    exact .newArray understands found (onOperands fits.1) type
  | newVector found length type _ onStored =>
    exact .newVector understands found length type (onStored fits.2.2)
  | newSizedVector found _ type _ onOperands onStored =>
    exact .newSizedVector understands found (onOperands fits.1) type (onStored fits.2.2)
  | noItems => exact fun ref _ _ => .nothing (fun _ => [.array ref]) () trivial
  | moreItems index _ _ onItem onLater =>
    exact .moreItems understands index (onItem fits.2.2.1) (onLater fits.2.2.2.2)
  | storeElement _ few _ _ _ above onObject onOperands onOperand =>
    exact .storeElement understands few (onObject fits.1) (onOperands fits.2.1)
      (onOperand fits.2.2.1) above
  | updateElement _ few _ temporary onIndices _ operates above onObject onSpilled onOperand =>
      exact .updateElement understands few (onObject fits.1) temporary
        (onIndices.avoids .refl temporary.unnamed) (onSpilled fits.2.2.1)
        (onOperand fits.2.2.2.2.2.2.1) operates above
  | noSpills => exact ⟨rfl, fun _ => spills_nothing⟩
  | spill _ temporary later onOperand onLater =>
    exact .spill understands (onOperand fits.1) temporary
      (later.avoids .refl temporary.unnamed) (onLater fits.2.2)
  | storeImplicit | storeMember | updateMember => exact fun _ computes => computes.2.1.elim
  | staticMember | instanceMember | callOnReceiver | delegateCreation | interpolation
  | objectCreation => exact False.elim
  | _ => trivial

end Situation
end OpMachine
