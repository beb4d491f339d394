import OpMachine.Heap

namespace OpMachine

/-!
Checked readings of values.

A reading in a shape succeeds or says what was found instead.  Integers must
fit the shape; floating-point shapes round.  Reading a vector makes a new
array, so a reading may extend the heap.
-/

namespace Conversion

def mismatch (expected : String) (value : Value) : ConversionError :=
  .typeMismatch expected value.kindName

def readInteger (name : String) (low high : Int) (value : Value) :
    Except ConversionError Int :=
  match value.integer? with
  | none => .error (mismatch name value)
  | some number =>
      if low ≤ number ∧ number ≤ high then .ok number
      else .error (.integerOverflow number name)

variable (value : Value)

def readInt : Except ConversionError Int32 :=
  return .ofInt (← readInteger "i32" (-0x80000000) 0x7fffffff value)

def readInt64 : Except ConversionError Int64 :=
  return .ofInt (← readInteger "i64" (-0x8000000000000000) 0x7fffffffffffffff value)

def readUInt : Except ConversionError UInt32 :=
  return .ofNat (← readInteger "u32" 0 0xffffffff value).toNat

def readUInt64 : Except ConversionError UInt64 :=
  return .ofNat (← readInteger "u64" 0 0xffffffffffffffff value).toNat

def readDouble : Except ConversionError Float :=
  match value with
  | .double number => .ok number
  | .float number => .ok number.toFloat
  | .int number => .ok number.toFloat
  | .int64 number => .ok number.toFloat
  | .uint number => .ok number.toFloat
  | .uint64 number => .ok number.toFloat
  | other => .error (mismatch "double" other)

def readFloat : Except ConversionError Float32 :=
  match value with
  | .float number => .ok number
  | .double number => .ok number.toFloat32
  | .int number => .ok number.toFloat32
  | .int64 number => .ok number.toFloat32
  | .uint number => .ok number.toFloat32
  | .uint64 number => .ok number.toFloat32
  | other => .error (mismatch "float" other)

def readBool : Value -> Except ConversionError Bool
  | .bool value => .ok value
  | other => .error (mismatch "bool" other)

def readString : Value -> Except ConversionError String
  | .string value => .ok value
  | other => .error (mismatch "string" other)

def readFunction : Value -> Except ConversionError FunctionRef
  | .function ref => .ok ref
  | other => .error (mismatch "function" other)

end Conversion

namespace Shape

open Conversion

/-- The first failure among readings of a list of items, or all of them. -/
def readAll (read : Value -> Heap -> Except ConversionError (Value × Heap)) :
    List Value -> Array Value -> Heap -> Except ConversionError (Array Value × Heap)
  | [], found, heap => .ok (found, heap)
  | item :: rest, found, heap => do
      let (value, heap) ← read item heap
      readAll read rest (found.push value) heap

def read : Shape -> Value -> Heap -> Except ConversionError (Value × Heap)
  | .int, value, heap => return (.int (← readInt value), heap)
  | .int64, value, heap => return (.int64 (← readInt64 value), heap)
  | .uint, value, heap => return (.uint (← readUInt value), heap)
  | .uint64, value, heap => return (.uint64 (← readUInt64 value), heap)
  | .float, value, heap => return (.float (← readFloat value), heap)
  | .double, value, heap => return (.double (← readDouble value), heap)
  | .bool, value, heap => return (.bool (← readBool value), heap)
  | .string, value, heap => return (.string (← readString value), heap)
  | .unit, .void, heap => .ok (.void, heap)
  | .unit, other, _ => .error (mismatch "void" other)
  | .any, value, heap => .ok (value, heap)
  | .function, value, heap => return (.function (← readFunction value), heap)
  | .optional _, .null, heap => .ok (.null, heap)
  | .optional inner, value, heap => inner.read value heap
  | .vector item, .array ref, heap => do
      let (items, heap) ← readAll item.read (heap.array ref).items.toList #[] heap
      return heap.addVector (item.typeHash?.getD .empty) items
  | .vector _, other, _ => .error (mismatch "array" other)

def defaultValue : Shape -> Heap -> Value × Heap
  | .int, heap => (.int 0, heap)
  | .int64, heap => (.int64 0, heap)
  | .uint, heap => (.uint 0, heap)
  | .uint64, heap => (.uint64 0, heap)
  | .float, heap => (.float 0, heap)
  | .double, heap => (.double 0, heap)
  | .bool, heap => (.bool false, heap)
  | .string, heap => (.string "", heap)
  | .unit, heap => (.void, heap)
  | .any, heap => (.void, heap)
  | .function, heap => (.null, heap)
  | .optional _, heap => (.null, heap)
  | .vector item, heap => heap.addVector (item.typeHash?.getD .empty) #[]

end Shape
end OpMachine
