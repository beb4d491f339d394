import OpMachine.Proofs.ArrayEvaluation
import OpMachine.Proofs.Translation

namespace OpMachine

/-!
# Scalar instructions

What the instructions for scalars do to a frame: one equation for each of them,
stated for a frame at whose position the chunk holds the instruction.  All
values but objects are stored as they are, so none of these instructions changes
the heap.
-/

theorem Catalog.defaultValue_shared (type : TypeHash) : (defaultValue type).isShared = true := by
  simp only [defaultValue, apply_ite Value.isShared]
  simp only [Value.isShared, ite_self]

namespace Execute

variable {α β : Type} {catalog : Catalog} {heap : Heap} {frame : Frame} {value : Value}
  {rest : List Value} {slot : UInt8}

/-! ## Parts of instructions -/

theorem pop_run (operands : frame.operands = value :: rest) :
    pop ⟨frame, heap⟩ = .ok value ⟨{ frame with operands := rest }, heap⟩ := by
  obtain ⟨method, arguments, locals, _, position⟩ := frame
  cases operands
  rfl

/-- The values that were pushed last are popped together, in the order they
were pushed. -/
theorem popMany_run (operands : frame.operands = values.reverse ++ rest) :
    popMany values.length ⟨frame, heap⟩ = .ok values ⟨{ frame with operands := rest }, heap⟩ := by
  change (if values.length ≤ frame.operands.length then _ else _ : Execute (List Value)) _ = _
  have enough : values.length ≤ (values.reverse ++ rest).length := by
    rw [List.length_append, List.length_reverse]
    exact Nat.le_add_right _ _
  rw [operands, if_pos enough, List.take_left' (List.length_reverse ..),
    List.drop_left' (List.length_reverse ..), List.reverse_reverse]
  rfl

theorem copied_shared (shared : value.isShared = true) : heap.copied value = (value, heap) := by
  cases value with
  | object => cases shared
  | _ => rfl

theorem popCopied_eq (operands : frame.operands = value :: rest) : popCopied ⟨frame, heap⟩
      = .ok (heap.copied value).1 ⟨{ frame with operands := rest }, (heap.copied value).2⟩ := by
  unfold popCopied
  rw [bind_of_ok (pop_run operands)]
  rfl

theorem popCopied_run (operands : frame.operands = value :: rest) (shared : value.isShared = true) :
    popCopied ⟨frame, heap⟩ = .ok value ⟨{ frame with operands := rest }, heap⟩ := by
  rw [popCopied_eq operands, copied_shared shared]

theorem onTwo_run {operation : Value -> Value -> Except RuntimeError Value} {left right : Value}
    (operands : frame.operands = right :: left :: rest) :
    onTwo operation ⟨frame, heap⟩ = match operation left right with
      | .ok result => .ok .next ⟨{ frame with operands := result :: rest }, heap⟩
      | .error error => .error error ⟨{ frame with operands := rest }, heap⟩ := by
  unfold onTwo
  rw [bind_of_ok (pop_run operands), bind_of_ok (pop_run rfl)]
  cases operation left right with
  | ok | error => rfl

theorem onOne_run {operation : Value -> Except RuntimeError Value}
    (operands : frame.operands = operand :: rest) :
    onOne operation ⟨frame, heap⟩ = match operation operand with
      | .ok result => .ok .next ⟨{ frame with operands := result :: rest }, heap⟩
      | .error error => .error error ⟨{ frame with operands := rest }, heap⟩ := by
  unfold onOne
  rw [bind_of_ok (pop_run operands)]
  cases operation operand with
  | ok | error => rfl

theorem constant_run (found : frame.method.pool.get? index = some stored)
    (isValue : stored.value? = some value) :
    constant index ⟨frame, heap⟩ = .ok value ⟨frame, heap⟩ := by
  rw [constant, frame_bind, found, Option.bind_eq_bind, Option.bind_some, isValue]
  rfl

theorem readHash_run {hash : TypeHash}
    (holds : frame.method.chunk.Holds frame.position (Instruction.wordBytes index))
    (found : frame.method.pool.get? index.toNat = some (.hash hash)) :
    readHash ⟨frame, heap⟩ = .ok hash ⟨frame.past 2, heap⟩ := by
  have read : readWord ⟨frame, heap⟩ = _ := readWord_of_holds holds
  rw [readHash, bind_of_ok read, frame_bind, found]
  rfl

theorem getArgument_run (found : frame.arguments[slot.toNat]? = some value) :
    getArgument slot ⟨frame, heap⟩ = .ok value ⟨frame, heap⟩ := by
  rw [getArgument, frame_bind, found]
  rfl

theorem getLocal_run {slot : UInt16} (found : frame.locals[slot.toNat]? = some value) :
    getLocal slot ⟨frame, heap⟩ = .ok value ⟨frame, heap⟩ := by
  rw [getLocal, frame_bind, found]
  rfl

theorem setArgument_run (inside : slot.toNat < frame.arguments.size) :
    setArgument slot value ⟨frame, heap⟩ = .ok ()
      ⟨{ frame with arguments := frame.arguments.setIfInBounds slot.toNat value }, heap⟩ := by
  rw [setArgument, frame_bind, if_pos inside]
  rfl

theorem setLocal_run {slot : UInt16} (inside : slot.toNat < frame.locals.size) :
    setLocal slot value ⟨frame, heap⟩ = .ok ()
      ⟨{ frame with locals := frame.locals.setIfInBounds slot.toNat value }, heap⟩ := by
  rw [setLocal, frame_bind, if_pos inside]
  rfl

/-! ## Instructions -/

theorem pushing_bind (action : Execute α) (next : α -> Execute Value) :
    pushing (action >>= next) = action >>= fun answer => pushing (next answer) := by
  unfold pushing
  rw [bind_assoc]

theorem pushing_run (runs : action ⟨frame, heap⟩ = .ok value ⟨frame, heap⟩) :
    pushing action ⟨frame, heap⟩ = .ok .next
      ⟨{ frame with operands := value :: frame.operands }, heap⟩ := by
  unfold pushing
  rw [bind_of_ok runs]
  rfl

section

variable {opcode : Opcode} {operand : UInt8} {word : UInt16} {complete : opcode.operandSize = 0}
  {stored : Constant} {values : List Value}

theorem instruction_withByte (catalog : Catalog) {complete : opcode.operandSize = 1}
    (holds : frame.Faces (.withByte opcode operand complete))
    (reads : operation catalog opcode = readByte >>= next) :
    instruction catalog ⟨frame, heap⟩ = next operand ⟨frame.past 2, heap⟩ := by
  rw [instruction_of_holds holds]
  change operation catalog opcode _ = _
  rw [reads]
  exact bind_of_ok (readByte_of_holds holds.2)

theorem instruction_withWord (catalog : Catalog) {complete : opcode.operandSize = 2}
    (holds : frame.Faces (.withWord opcode word complete))
    (reads : operation catalog opcode = readWord >>= next) :
    instruction catalog ⟨frame, heap⟩ = next word ⟨frame.past 3, heap⟩ := by
  rw [instruction_of_holds holds]
  change operation catalog opcode _ = _
  rw [reads]
  exact bind_of_ok (readWord_of_holds holds.2)

theorem instruction_push (pushes : operation catalog opcode = pushing (pure value))
    (holds : frame.Faces (.plain opcode complete)) :
    instruction catalog ⟨frame, heap⟩ = .ok .next
      ⟨frame.past 1 (value :: frame.operands), heap⟩ := by
  rw [instruction_of_holds holds]
  change operation catalog opcode _ = _
  rw [pushes]
  rfl

theorem instruction_constant (holds : frame.Faces (.withByte .constant operand rfl))
    (found : frame.method.pool.get? operand.toNat = some stored)
    (isValue : stored.value? = some value) : instruction catalog ⟨frame, heap⟩ = .ok .next
      ⟨frame.past 2 (value :: frame.operands), heap⟩ := by
  rw [instruction_withByte catalog holds (pushing_bind readByte _)]
  exact pushing_run (constant_run found isValue)

theorem instruction_constantWide (holds : frame.Faces (.withWord .constantWide word rfl))
    (found : frame.method.pool.get? word.toNat = some stored)
    (isValue : stored.value? = some value) : instruction catalog ⟨frame, heap⟩ = .ok .next
      ⟨frame.past 3 (value :: frame.operands), heap⟩ := by
  rw [instruction_withWord catalog holds (pushing_bind readWord _)]
  exact pushing_run (constant_run found isValue)

theorem instruction_getArg (holds : frame.Faces (.withByte .getArg operand rfl))
    (found : frame.arguments[operand.toNat]? = some value) :
    instruction catalog ⟨frame, heap⟩ = .ok .next
      ⟨frame.past 2 (value :: frame.operands), heap⟩ := by
  rw [instruction_withByte catalog holds (pushing_bind readByte _)]
  exact pushing_run (getArgument_run found)

theorem instruction_getLocal (holds : frame.Faces (.withWord .getLocal word rfl))
    (found : frame.locals[word.toNat]? = some value) :
    instruction catalog ⟨frame, heap⟩ = .ok .next
      ⟨frame.past 3 (value :: frame.operands), heap⟩ := by
  rw [instruction_withWord catalog holds (pushing_bind readWord _)]
  exact pushing_run (getLocal_run found)

theorem instruction_pushDefault {hash : TypeHash}
    (holds : frame.Faces (.withWord .pushDefault word rfl))
    (found : frame.method.pool.get? word.toNat = some (.hash hash)) :
    instruction catalog ⟨frame, heap⟩ = .ok .next
      ⟨frame.past 3 (Catalog.defaultValue hash :: frame.operands), heap⟩ := by
  have read : readHash ⟨frame.past 1, heap⟩ = _ :=
    readHash_run holds.2 found
  rw [instruction_of_holds holds]
  change pushing (readHash >>= fun hash => pure (Catalog.defaultValue hash)) _ = _
  rw [pushing_bind, bind_of_ok read]
  rfl

theorem instruction_setArg (holds : frame.Faces (.withByte .setArg operand rfl))
    (operands : frame.operands = value :: rest) (shared : value.isShared = true)
    (inside : operand.toNat < frame.arguments.size) :
    instruction catalog ⟨frame, heap⟩ = .ok .next ⟨{ frame.past 2 rest with
          arguments := frame.arguments.setIfInBounds operand.toNat value }, heap⟩ := by
  have popped : popCopied ⟨frame.past 2, heap⟩ = _ :=
    popCopied_run operands shared
  have stored : setArgument operand value ⟨frame.past 2 rest, heap⟩ = _ :=
    setArgument_run inside
  rw [instruction_withByte catalog holds rfl, bind_of_ok popped, bind_of_ok stored]
  rfl

theorem instruction_setLocal (holds : frame.Faces (.withWord .setLocal word rfl))
    (operands : frame.operands = value :: rest) (shared : value.isShared = true)
    (inside : word.toNat < frame.locals.size) :
    instruction catalog ⟨frame, heap⟩ = .ok .next ⟨{ frame.past 3 rest with
          locals := frame.locals.setIfInBounds word.toNat value }, heap⟩ := by
  have popped : popCopied ⟨frame.past 3, heap⟩ = _ :=
    popCopied_run operands shared
  have stored : setLocal word value ⟨frame.past 3 rest, heap⟩ = _ :=
    setLocal_run inside
  rw [instruction_withWord catalog holds rfl, bind_of_ok popped, bind_of_ok stored]
  rfl

theorem instruction_pop (holds : frame.Faces (.plain .pop rfl))
    (operands : frame.operands = value :: rest) :
    instruction catalog ⟨frame, heap⟩ = .ok .next ⟨frame.past 1 rest, heap⟩ := by
  have popped : pop ⟨frame.past 1, heap⟩ = _ := pop_run operands
  rw [instruction_of_holds holds]
  exact bind_of_ok popped

theorem instruction_dup (holds : frame.Faces (.plain .dup rfl))
    (operands : frame.operands = value :: rest) :
    instruction catalog ⟨frame, heap⟩ = .ok .next
      ⟨frame.past 1 (value :: value :: rest), heap⟩ := by
  have popped : pop ⟨frame.past 1, heap⟩ = _ := pop_run operands
  rw [instruction_of_holds holds]
  exact bind_of_ok popped

theorem instruction_onTwo {left : Value} (isOperator : operation catalog opcode = onTwo apply)
    (holds : frame.Faces (.plain opcode complete))
    (operands : frame.operands = right :: left :: rest) :
    instruction catalog ⟨frame, heap⟩ = match apply left right with
      | .ok result => .ok .next ⟨frame.past 1 (result :: rest), heap⟩
      | .error error => .error error ⟨frame.past 1 rest, heap⟩ := by
  rw [instruction_of_holds holds]
  change operation catalog opcode _ = _
  rw [isOperator]
  exact onTwo_run operands

theorem instruction_onOne (isOperator : operation catalog opcode = onOne apply)
    (holds : frame.Faces (.plain opcode complete))
    (operands : frame.operands = operandValue :: rest) : instruction catalog ⟨frame, heap⟩ =
      match apply operandValue with
      | .ok result => .ok .next ⟨frame.past 1 (result :: rest), heap⟩
      | .error error => .error error ⟨frame.past 1 rest, heap⟩ := by
  rw [instruction_of_holds holds]
  change operation catalog opcode _ = _
  rw [isOperator]
  exact onOne_run operands

theorem instruction_convert (holds : frame.Faces (.withByte .convert kind.toByte rfl))
    (operands : frame.operands = value :: rest) :
    instruction catalog ⟨frame, heap⟩ = match Arithmetic.convert kind value with
      | .ok result => .ok .next ⟨frame.past 2 (result :: rest), heap⟩
      | .error error => .error error ⟨frame.past 2 rest, heap⟩ := by
  rw [instruction_withByte catalog holds rfl, NumericKind.ofByte?_toByte]
  exact onOne_run operands

theorem instruction_jump (holds : frame.Faces (.withWord .jump word rfl)) :
    instruction catalog ⟨frame, heap⟩ = .ok .next
      ⟨{ frame with position := frame.position + 3 + word.toNat }, heap⟩ := by
  rw [instruction_withWord catalog holds rfl]
  rfl

/-- A conditional jump is taken when the topmost value is false, and fails when
it is no truth value. -/
theorem instruction_jumpIfFalse (holds : frame.Faces (.withWord .jumpIfFalse word rfl))
    (operands : frame.operands = value :: rest) :
    instruction catalog ⟨frame, heap⟩ = match Conversion.readBool value with
      | .ok true => .ok .next ⟨frame.past 3 rest, heap⟩
      | .ok false => .ok .next ⟨(frame.past 3 rest).past word.toNat, heap⟩
      | .error error => .error (.conversion error) ⟨frame.past 3 rest, heap⟩ := by
  have popped : pop ⟨frame.past 3, heap⟩ = _ := pop_run operands
  have tested : popBool ⟨frame.past 3, heap⟩ = converted (Conversion.readBool value)
        ⟨frame.past 3 rest, heap⟩ := bind_of_ok popped
  rw [instruction_withWord catalog holds rfl]
  cases outcome : Conversion.readBool value with rw [outcome] at tested
  | error => exact bind_of_error tested
  | ok truth =>
    rw [bind_of_ok tested]
    cases truth <;> rfl

theorem instruction_loop (holds : frame.Faces (.withWord .loop word rfl))
    (inside : word.toNat ≤ frame.position + 3) :
    instruction catalog ⟨frame, heap⟩ = .ok .next
      ⟨{ frame with position := frame.position + 3 - word.toNat }, heap⟩ := by
  rw [instruction_withWord catalog holds rfl]
  change (if word.toNat ≤ frame.position + 3 then _ else _ : Execute Continuation) _ = _
  rw [if_pos inside]
  rfl

theorem instruction_returnValue (holds : frame.Faces (.plain .returnValue rfl))
    (operands : frame.operands = value :: rest) :
    instruction catalog ⟨frame, heap⟩ = .ok (.leave value) ⟨frame.past 1 rest, heap⟩ := by
  have popped : pop ⟨frame.past 1, heap⟩ = _ := pop_run operands
  rw [instruction_of_holds holds]
  exact bind_of_ok popped

theorem instruction_returnVoid (holds : frame.Faces (.plain .returnVoid rfl)) :
    instruction catalog ⟨frame, heap⟩ = .ok (.leave .void) ⟨frame.past 1, heap⟩ := by
  rw [instruction_of_holds holds]
  rfl

/-! ## Calls -/

theorem instruction_callSelf (holds : frame.Faces (.withByte .callSelf operand rfl))
    (count : operand.toNat = values.length) (operands : frame.operands = values.reverse ++ rest) :
    instruction catalog ⟨frame, heap⟩ = .ok (.call (.method frame.method
        (if frame.method.hasReceiver then frame.arguments[0]? else none) values)
        frame.method.returnsValue)
      ⟨frame.past 2 rest, heap⟩ := by
  have popped : popMany values.length ⟨frame.past 2, heap⟩ = _ :=
    popMany_run operands
  rw [instruction_withByte catalog holds rfl, count]
  exact bind_of_ok popped

theorem instruction_callUnit (holds : frame.Faces (.callUnit index count))
    (found : frame.method.callees[index.toNat]? = some callee)
    (counted : count.toNat = values.length) (operands : frame.operands = values.reverse ++ rest) :
    instruction catalog ⟨frame, heap⟩ = .ok (.call (.method callee none values) callee.returnsValue)
      ⟨frame.past 3 rest, heap⟩ := by
  have readIndex : readByte ⟨frame.past 1, heap⟩ = _ :=
    readByte_of_holds holds.2
  have readCount : readByte ⟨{ frame with position := frame.position + 1 + 1 }, heap⟩ = _ :=
    readByte_of_holds holds.2.2
  have popped : popMany values.length ⟨frame.past 3, heap⟩ = _ :=
    popMany_run operands
  rw [instruction_of_holds holds]
  change callUnit _ = _
  rw [callUnit, bind_of_ok readIndex, bind_of_ok readCount, frame_bind, found, counted]
  exact bind_of_ok popped

end

end Execute
end OpMachine
