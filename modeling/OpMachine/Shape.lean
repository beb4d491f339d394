import OpMachine.Value

namespace OpMachine

/-!
Shapes: the forms in which a host reads and writes values.

A shape says what a host expects of a value and how it hands the value back.
Reading is lenient between numbers: an integer shape takes an integer of any
kind that fits, and a floating-point shape takes every number.
-/

/-- The types of a host that values are read as. -/
inductive Shape where
  | int | int64 | uint | uint64 | float | double | bool | string
  /-- The shape of a result that is no value. -/
  | unit
  | any
  | function
  | optional (inner : Shape)
  | vector (item : Shape)
deriving DecidableEq, Inhabited, Repr

namespace Shape

def expectation : Shape -> String
  | .int => "i32"
  | .int64 => "i64"
  | .uint => "u32"
  | .uint64 => "u64"
  | .float => "float"
  | .double => "double"
  | .bool => "bool"
  | .string => "string"
  | .unit => "void"
  | .any => "value"
  | .function => "function"
  | .optional inner => inner.expectation
  | .vector _ => "array"

def isUnit : Shape -> Bool
  | .unit => true
  | _ => false

def typeHash? : Shape -> Option TypeHash
  | .int => some .int
  | .int64 => some .int64
  | .uint => some .uint
  | .uint64 => some .uint64
  | .float => some .float
  | .double => some .double
  | .bool => some .bool
  | .string => some .string
  | _ => none

end Shape
end OpMachine
