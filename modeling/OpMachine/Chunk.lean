import OpMachine.ConstantPool
import OpMachine.Opcode

namespace OpMachine

/-!
Chunks: the code bytes of one method.

Every byte carries the source line it was written for.  Listing a chunk shows
one instruction per line; a byte that names no operation is shown alone and
the listing goes on at the next byte.
-/

structure CodeByte where
  value : UInt8
  line : UInt32
deriving DecidableEq, Inhabited

structure Chunk where
  bytes : Array CodeByte := #[]
deriving Inhabited

namespace Chunk

variable (chunk : Chunk)

def size : Nat := chunk.bytes.size

def writeByte (value : UInt8) (line : UInt32) : Chunk :=
  ⟨chunk.bytes.push ⟨value, line⟩⟩

def writeOpcode (opcode : Opcode) (line : UInt32) : Chunk :=
  chunk.writeByte opcode.toByte line

variable (value : UInt16)

def highByte : UInt8 := (value >>> 8).toUInt8

def lowByte : UInt8 := value.toUInt8

def joinBytes (high low : UInt8) : UInt16 := (high.toUInt16 <<< 8) ||| low.toUInt16

/-- An operand of two bytes, the more significant one first. -/
def writeWord (line : UInt32) : Chunk :=
  (chunk.writeByte (highByte value) line).writeByte (lowByte value) line

variable (offset : Nat)

def setByte (value : UInt8) : Chunk :=
  ⟨chunk.bytes.modify offset fun byte => { byte with value }⟩

def patchWord (value : UInt16) : Chunk :=
  (chunk.setByte offset (highByte value)).setByte (offset + 1) (lowByte value)

def byte? : Option UInt8 :=
  chunk.bytes[offset]?.map (·.value)

def line? : Option UInt32 :=
  chunk.bytes[offset]?.map (·.line)

def word? : Option UInt16 := do
  let high ← chunk.byte? offset
  let low ← chunk.byte? (offset + 1)
  return joinBytes high low

def opcode? : Option Opcode :=
  chunk.byte? offset >>= Opcode.ofByte?

/-- The offset after the instruction, or after the single byte, at an offset. -/
def next : Nat :=
  match chunk.opcode? offset with
  | some opcode => offset + 1 + opcode.operandSize
  | none => offset + 1

theorem lt_next : offset < chunk.next offset := by
  unfold next
  split <;> omega

/-- The offsets at which instructions, or single bytes without one, begin. -/
def boundaries (chunk : Chunk) (offset : Nat) : List Nat :=
  if offset < chunk.size then offset :: chunk.boundaries (chunk.next offset) else []
termination_by chunk.size - offset
decreasing_by
  have later := chunk.lt_next offset
  omega

def opcodes : List Opcode :=
  (chunk.boundaries 0).filterMap chunk.opcode?

/-! ## Listing -/

variable (pool : ConstantPool)

end Chunk
end OpMachine
