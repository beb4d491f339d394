import OpMachine.Chunk
import OpMachine.Error

namespace OpMachine

/-!
Emission of code.

An emitter holds the chunk being written, the pool its constants go to and
the current line.  Operands have fixed widths, so an emission fails when an
index or a distance does not fit; what was written before the failure stays.
A forward jump is written with a placeholder and patched when its target is
reached.
-/

/-- The code and the constants so far, and the current line. -/
structure Emitter where
  chunk : Chunk := {}
  pool : ConstantPool := {}
  line : UInt32 := 0
deriving Inhabited

abbrev Emit := EStateM CompilationError Emitter

/-- A forward jump that waits for its target: the offset of its operand. -/
structure Label where
  offset : Nat
deriving DecidableEq, Inhabited

namespace Emitter

variable (emitter : Emitter)

/-- The line of what is emitted next.  Line zero keeps the current one. -/
def atLine (line : UInt32) : Emitter :=
  if line = 0 then emitter else { emitter with line }

def putByte (value : UInt8) : Emitter :=
  { emitter with chunk := emitter.chunk.writeByte value emitter.line }

def putWord (value : UInt16) : Emitter :=
  { emitter with chunk := emitter.chunk.writeWord value emitter.line }

def putOpcode (opcode : Opcode) : Emitter :=
  { emitter with chunk := emitter.chunk.writeOpcode opcode emitter.line }

end Emitter

namespace Emit

def setLine (line : UInt32) : Emit Unit := modify (·.atLine line)

def offset : Emit Nat := return (← get).chunk.size

def opcode (opcode : Opcode) : Emit Unit := modify (·.putOpcode opcode)

def operandByte (value : UInt8) : Emit Unit := modify (·.putByte value)

def operandWord (value : UInt16) : Emit Unit := modify (·.putWord value)

variable (code : Opcode)

def withByte (value : UInt8) : Emit Unit := do
  opcode code
  operandByte value

def withWord (value : UInt16) : Emit Unit := do
  opcode code
  operandWord value

/-- The index of a constant, if it fits an operand of two bytes. -/
def intern (constant : Constant) : Emit UInt16 := do
  let index ← modifyGet fun ⟨chunk, pool, line⟩ =>
    let (index, pool) := pool.add constant
    (index, ⟨chunk, pool, line⟩)
  if index < 65536 then
    return index.toUInt16
  else
    throw (.unsupportedShape "method with more than 65536 constants")

/-- A load of a constant, in the shortest form its index fits. -/
def constant (value : Constant) : Emit Unit := do
  let index ← intern value
  if index < 256 then
    withByte .constant index.toUInt8
  else
    withWord .constantWide index

def withHash (hash : TypeHash) : Emit Unit := do
  let index ← intern (.hash hash)
  withWord code index

def int (value : Int32) : Emit Unit := constant (.int value)

def string (value : String) : Emit Unit := constant (.string value)

def null : Emit Unit := opcode .pushNull

def bool (value : Bool) : Emit Unit := opcode (if value then .pushTrue else .pushFalse)

def defaultValue (type : TypeHash) : Emit Unit := withHash .pushDefault type

def getArg (slot : UInt8) : Emit Unit := withByte .getArg slot

def setArg (slot : UInt8) : Emit Unit := withByte .setArg slot

def getLocal (slot : UInt16) : Emit Unit := withWord .getLocal slot

def setLocal (slot : UInt16) : Emit Unit := withWord .setLocal slot

def convert (kind : NumericKind) : Emit Unit := withByte .convert kind.toByte

def call (method : TypeHash) (argumentCount : UInt8) : Emit Unit := do
  withHash code method
  operandByte argumentCount

def callUnit (callee argumentCount : UInt8) : Emit Unit := do
  withByte .callUnit callee
  operandByte argumentCount

def new (type constructor : TypeHash) (argumentCount : UInt8) : Emit Unit := do
  let typeIndex ← intern (.hash type)
  let constructorIndex ← intern (.hash constructor)
  withWord .new typeIndex
  operandWord constructorIndex
  operandByte argumentCount

def newArray (element : TypeHash) (rank : UInt8) : Emit Unit := do
  withHash .newArray element
  operandByte rank

def returnValue : Emit Unit := opcode .returnValue

def returnVoid : Emit Unit := opcode .returnVoid

def pop : Emit Unit := opcode .pop

def dup : Emit Unit := opcode .dup

/-- A forward jump with a placeholder. -/
def jump : Emit Label := do
  opcode code
  let label : Label := ⟨← offset⟩
  operandWord 0xFFFF
  return label

/-- The target of a forward jump is here. -/
def patch (label : Label) : Emit Unit := do
  let distance := (← offset) - label.offset - 2
  if distance < 65536 then
    modify fun emitter =>
      { emitter with chunk := emitter.chunk.patchWord label.offset distance.toUInt16 }
  else
    throw (.unsupportedShape "jump over more than 65535 bytes")

/-- A backward jump.  Its distance counts its own operand. -/
def loop (target : Nat) : Emit Unit := do
  opcode .loop
  let distance := (← offset) - target + 2
  if distance < 65536 then
    operandWord distance.toUInt16
  else
    throw (.unsupportedShape "loop over more than 65535 bytes")

end Emit
end OpMachine
