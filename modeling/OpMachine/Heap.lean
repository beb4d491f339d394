import OpMachine.CodeUnit
import OpMachine.Error
import OpMachine.HostFunction

namespace OpMachine

/-!
The heap: arrays, objects and functions with an identity.

Arrays are rectangular and keep their items in row-major order.  An object has
a runtime type and a payload, and it may be a value object, which is duplicated
whenever it is stored.  Functions never change once they are made.
-/

/-- An array with its dimensions. -/
structure ArrayCell where
  elementType : TypeHash
  dimensions : List Nat
  items : Array Value
deriving Inhabited

namespace ArrayCell

variable (cell : ArrayCell)

def rank : Nat := cell.dimensions.length

def length : Nat := cell.dimensions.foldl (· * ·) 1

/-- The type of an array.  Ranks above 255 are counted as 255. -/
def type : TypeHash :=
  .ofInstance (.arrayDefinition (min cell.rank 255)) [cell.elementType]

/-- The row-major position of indices, starting from the position of the
dimensions already passed. -/
def offsetFrom : List Nat -> Nat -> List Int -> Except RuntimeError Nat
  | dimension :: dimensions, position, index :: indices =>
      if 0 ≤ index ∧ index < dimension then
        offsetFrom dimensions (position * dimension + index.toNat) indices
      else
        .error (.indexOutOfRange index dimension)
  | _, position, _ => .ok position

/-- The position of an item; there is one index for each dimension. -/
def offset (indices : List Int) : Except RuntimeError Nat :=
  if indices.length = cell.dimensions.length then
    offsetFrom cell.dimensions 0 indices
  else
    .error (.typeMismatch (toString cell.dimensions.length ++ " indices")
      (toString indices.length ++ " indices"))

def get (indices : List Int) : Except RuntimeError Value :=
  return cell.items.getD (← cell.offset indices) .void

end ArrayCell

abbrev Slots := List (String × Value)

def Slots.get? : Slots -> String -> Option Value
  | [], _ => none
  | (name, value) :: rest, slot => if name = slot then some value else get? rest slot

def Slots.put : Slots -> String -> Value -> Slots
  | [], slot, value => [(slot, value)]
  | (name, old) :: rest, slot, value =>
      if name = slot then (name, value) :: rest else (name, old) :: put rest slot value

/-- What an object holds for the host. -/
inductive Payload where
  | record (kind : PayloadKind) (slots : Slots)
  | text (content : String)
  | closure (unit : Nat)
deriving Inhabited

def Payload.kind : Payload -> PayloadKind
  | .record kind _ => kind
  | .text _ => .text
  | .closure _ => .closure

structure ObjectCell where
  type : TypeHash
  payload : Payload
  isValue : Bool
deriving Inhabited

/-- The instance of the closure that a unit holds. -/
def ObjectCell.closure (unit : Nat) : ObjectCell :=
  ⟨.ofName ("<closure>" ++ toString unit), .closure unit, false⟩

inductive FunctionBody where
  | host (function : HostFunction)
  | compiled (method : CompiledMethod)
  /-- Code of another machine, known by its name only. -/
  | foreign (name : String)

/-- A function, maybe bound to a target. -/
structure FunctionCell where
  delegateType : TypeHash
  signature : Signature
  target : Option Value
  body : FunctionBody

instance : Inhabited FunctionCell := ⟨⟨.empty, default, none, .foreign ""⟩⟩

/-- All that has an identity, addressed by typed references. -/
structure Heap where
  arrays : Array ArrayCell := #[]
  objects : Array ObjectCell := #[]
  functions : Array FunctionCell := #[]
  /-- The functions already made from anonymous functions. -/
  delegates : Std.HashMap CellId FunctionRef := {}
deriving Inhabited

namespace Heap

variable (heap : Heap)

def array (ref : ArrayRef) : ArrayCell :=
  heap.arrays.getD ref.index default

def object : ObjectRef -> ObjectCell
  | .place index => heap.objects.getD index default
  | .closure unit => .closure unit

def function (ref : FunctionRef) : FunctionCell :=
  heap.functions.getD ref.index default

def addArray (cell : ArrayCell) : ArrayRef × Heap :=
  (⟨heap.arrays.size⟩, { heap with arrays := heap.arrays.push cell })

def addObject (cell : ObjectCell) : ObjectRef × Heap :=
  (.place heap.objects.size, { heap with objects := heap.objects.push cell })

def addFunction (cell : FunctionCell) : FunctionRef × Heap :=
  (⟨heap.functions.size⟩, { heap with functions := heap.functions.push cell })

def addVector (elementType : TypeHash) (items : Array Value) : Value × Heap :=
  let (ref, heap) := heap.addArray ⟨elementType, [items.size], items⟩
  (.array ref, heap)

/-- The payload of an object replaced.  The instances of closures never change. -/
def setPayload (ref : ObjectRef) (payload : Payload) : Heap :=
  match ref with
  | .place index =>
      { heap with objects := heap.objects.modify index fun cell => { cell with payload } }
  | .closure _ => heap

/-- A value as it is stored: value objects are duplicated, all else is shared. -/
def copied (value : Value) : Value × Heap :=
  match value with
  | .object ref =>
      let cell := heap.object ref
      if cell.isValue then
        let (copy, heap) := heap.addObject cell
        (.object copy, heap)
      else (value, heap)
  | _ => (value, heap)

/-- The type by which a value is dispatched; void and null have none. -/
def runtimeType : Value -> Option TypeHash
  | .void => none
  | .null => none
  | .bool _ => some .bool
  | .int _ => some .int
  | .int64 _ => some .int64
  | .uint _ => some .uint
  | .uint64 _ => some .uint64
  | .float _ => some .float
  | .double _ => some .double
  | .string _ => some .string
  | .array ref => some (heap.array ref).type
  | .object ref => some (heap.object ref).type
  | .function ref => some (heap.function ref).delegateType

/-- The largest number of items that an array may be asked for.  An item takes
24 bytes, and beyond that number they would not fit an address space of 63
bits. -/
def maximumLength : Nat := (UInt64.size / 2 - 1) / 24

/-- The product of dimensions, taken from the left, if it fits 64 bits all the
way. -/
def wordProduct : Nat -> List Nat -> Option Nat
  | product, [] => some product
  | product, dimension :: rest =>
      if product * dimension < UInt64.size then wordProduct (product * dimension) rest else none

/-- The number of items of an array to be made, if it can be made. -/
def itemCount (dimensions : List Nat) : Except RuntimeError Nat :=
  match wordProduct 1 dimensions with
  | some count =>
      if count ≤ maximumLength then .ok count else .error (.allocationFailed dimensions)
  | none => .error (.allocationFailed dimensions)

def copies (heap : Heap) (value : Value) : Nat -> Array Value -> Array Value × Heap
  | 0, items => (items, heap)
  | count + 1, items =>
      let (copy, heap) := heap.copied value
      heap.copies value count (items.push copy)

/-- A new array of given dimensions, every item a stored copy of one value. -/
def newArray (elementType : TypeHash) (dimensions : List Nat) (fill : Value) :
    Except RuntimeError (ArrayRef × Heap) := do
  let count ← itemCount dimensions
  let (items, heap) := heap.copies fill count #[]
  return heap.addArray ⟨elementType, dimensions, items⟩

/-- A new array of given dimensions, filled with items from the front and with
null behind them. -/
def addFilled (elementType : TypeHash) (dimensions : List Nat)
    (items : Array Value) : Except RuntimeError (ArrayRef × Heap) := do
  let count ← itemCount dimensions
  return heap.addArray ⟨elementType, dimensions,
    items ++ Array.replicate (count - items.size) .null⟩

def setItem (ref : ArrayRef) (indices : List Int) (value : Value) : Except RuntimeError Heap := do
  let position ← (heap.array ref).offset indices
  return { heap with
    arrays := heap.arrays.modify ref.index fun cell =>
      { cell with items := cell.items.setIfInBounds position value } }

def sequenceItems : Value -> Except RuntimeError (Array Value)
  | .array ref => .ok (heap.array ref).items
  | .null => .error (.nullReference "sequence enumeration")
  | other => .error (.typeMismatch "sequence" other.kindName)

/-- The payload of an object, which must be of the expected kind. -/
def payload (expected : PayloadKind) (ref : ObjectRef) : Except RuntimeError Payload :=
  let payload := (heap.object ref).payload
  if payload.kind = expected then .ok payload
  else .error (.typeMismatch expected.name "host object of another type")

/-- The function made from an anonymous function.  It is made on first use and
is the same ever after. -/
def delegate (lambda : CompiledLambda) : FunctionRef × Heap :=
  match heap.delegates[lambda.cell]? with
  | some ref => (ref, heap)
  | none =>
      let (ref, heap) := heap.addFunction
        ⟨lambda.delegateType, lambda.signature, some lambda.receiver, .compiled lambda.method⟩
      (ref, { heap with delegates := heap.delegates.insert lambda.cell ref })

def debugText : Value -> String
  | .void => "Void"
  | .null => "Null"
  | .bool value => "Bool(" ++ toString value ++ ")"
  | .int value => "Int32(" ++ toString value.toInt ++ ")"
  | .int64 value => "Int64(" ++ toString value.toInt ++ ")"
  | .uint value => "UInt32(" ++ toString value.toNat ++ ")"
  | .uint64 value => "UInt64(" ++ toString value.toNat ++ ")"
  | .float value => "Float32(" ++ Floating.text32 value ++ ")"
  | .double value => "Float64(" ++ Floating.text value ++ ")"
  | .string value => "String(" ++ Text.quoted value ++ ")"
  | .array ref =>
      let cell := heap.array ref
      "Array(" ++ cell.type.text ++ ", " ++ RuntimeError.listText cell.dimensions ++ ")"
  | .object ref => "Object(" ++ (heap.object ref).type.text ++ ")"
  | .function ref => "Function(" ++ (heap.function ref).delegateType.text ++ ")"

end Heap
end OpMachine
