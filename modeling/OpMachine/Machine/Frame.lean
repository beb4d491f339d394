import OpMachine.Arithmetic
import OpMachine.Conversion

namespace OpMachine

/-!
Frames: activations of compiled methods.

A frame holds the argument slots, the local slots, the operand stack and the
position in the code.  Executing an instruction reads its operands, takes
values from the stack and may change the heap; it fails when the code is not
well formed, and the failure names the position reached.
-/

/-- A method that is being executed. -/
structure Frame where
  method : CompiledMethod
  /-- The receiver, if the method has one, and then the arguments. -/
  arguments : Array Value
  locals : Array Value
  /-- The operand stack, its top first. -/
  operands : List Value := []
  position : Nat := 0

/-- Arguments are stored: value objects are duplicated on the way. -/
def Frame.copyAll : List Value -> Array Value -> Heap -> Array Value × Heap
  | [], copies, heap => (copies, heap)
  | value :: rest, copies, heap =>
      let (copy, heap) := heap.copied value
      copyAll rest (copies.push copy) heap

/-- A frame at the start of a method.  Its locals are void. -/
def Frame.enter (method : CompiledMethod) (receiver : Option Value) (arguments : List Value)
    (heap : Heap) : Except RuntimeError (Frame × Heap) :=
  if arguments.length = method.parameterCount then
    let first := if method.hasReceiver then #[receiver.getD .null] else #[]
    let (slots, heap) := copyAll arguments first heap
    let locals := Array.replicate method.localCount .void
    .ok ({ method, arguments := slots, locals }, heap)
  else
    .error (.typeMismatch
      (toString method.parameterCount ++ " argument(s) for '" ++ method.name ++ "'")
      (toString arguments.length))

/-- The frame that runs, and the heap. -/
structure Running where
  frame : Frame
  heap : Heap

abbrev Execute := EStateM RuntimeError Running

namespace Execute

def frame : Execute Frame := return (← get).frame

def heap : Execute Heap := return (← get).heap

def setHeap (heap : Heap) : Execute Unit := modify fun running => { running with heap }

/-- The failure of code that is not well formed, at the position reached. -/
def invalid {α : Type} (reason : String) : Execute α := do
  throw (.invalidBytecode (← get).frame.position reason)

def check {α : Type} (result : Except RuntimeError α) : Execute α :=
  match result with
  | .ok value => return value
  | .error error => throw error

def converted {α : Type} (result : Except ConversionError α) : Execute α :=
  match result with
  | .ok value => return value
  | .error error => throw (.conversion error)

def moveTo (position : Nat) : Execute Unit :=
  modify fun ⟨frame, heap⟩ => ⟨{ frame with position }, heap⟩

/-! ## Operands of instructions -/

def readByte : Execute UInt8 := do
  let frame ← frame
  match frame.method.chunk.byte? frame.position with
  | some byte =>
      moveTo (frame.position + 1)
      return byte
  | none => invalid "unexpected end of code"

def readWord : Execute UInt16 := do
  let frame ← frame
  match frame.method.chunk.word? frame.position with
  | some word =>
      moveTo (frame.position + 2)
      return word
  | none => invalid "unexpected end of code"

def readOpcode : Execute Opcode := do
  let byte ← readByte
  match Opcode.ofByte? byte with
  | some opcode => return opcode
  | none => invalid ("unknown opcode 0x" ++ Text.hex 2 byte.toNat)

def constant (index : Nat) : Execute Value := do
  match (← frame).method.pool.get? index >>= Constant.value? with
  | some value => return value
  | none => invalid ("constant " ++ toString index ++ " is not a value")

def readHash : Execute TypeHash := do
  let index := (← readWord).toNat
  match (← frame).method.pool.get? index >>= Constant.hash? with
  | some hash => return hash
  | none => invalid ("constant " ++ toString index ++ " is not a hash")

/-! ## The operand stack -/

def push (value : Value) : Execute Unit :=
  modify fun ⟨frame, heap⟩ => ⟨{ frame with operands := value :: frame.operands }, heap⟩

def setOperands (operands : List Value) : Execute Unit :=
  modify fun ⟨frame, heap⟩ => ⟨{ frame with operands }, heap⟩

def pop : Execute Value := do
  match (← frame).operands with
  | value :: rest =>
      setOperands rest
      return value
  | [] => invalid "stack underflow"

/-- Some values from the top, the deepest first. -/
def popMany (count : Nat) : Execute (List Value) := do
  let operands := (← frame).operands
  if count ≤ operands.length then
    setOperands (operands.drop count)
    return (operands.take count).reverse
  else invalid "stack underflow"

/-- The top of the stack as it is stored. -/
def popCopied : Execute Value := do
  let value ← pop
  let (copy, heap) := (← heap).copied value
  setHeap heap
  return copy

def popBool : Execute Bool := do converted (Conversion.readBool (← pop))

/-- The indices of an array access, the first one deepest. -/
def popIndices (rank : UInt8) : Execute (List Int) := do
  let values ← popMany rank.toNat
  let indices ← converted (values.mapM Conversion.readInt64)
  return indices.map (·.toInt)

/-! ## Slots -/

def getArgument (slot : UInt8) : Execute Value := do
  match (← frame).arguments[slot.toNat]? with
  | some value => return value
  | none => invalid ("argument slot " ++ toString slot.toNat ++ " out of range")

def setArgument (slot : UInt8) (value : Value) : Execute Unit := do
  if slot.toNat < (← frame).arguments.size then
    modify fun ⟨frame, heap⟩ =>
      ⟨{ frame with arguments := frame.arguments.setIfInBounds slot.toNat value }, heap⟩
  else invalid ("argument slot " ++ toString slot.toNat ++ " out of range")

def getLocal (slot : UInt16) : Execute Value := do
  match (← frame).locals[slot.toNat]? with
  | some value => return value
  | none => invalid ("local slot " ++ toString slot.toNat ++ " out of range")

def setLocal (slot : UInt16) (value : Value) : Execute Unit := do
  if slot.toNat < (← frame).locals.size then
    modify fun ⟨frame, heap⟩ =>
      ⟨{ frame with locals := frame.locals.setIfInBounds slot.toNat value }, heap⟩
  else invalid ("local slot " ++ toString slot.toNat ++ " out of range")

end Execute
end OpMachine
