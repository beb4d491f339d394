import OpMachine.Literal
import OpMachine.TypeHash

namespace OpMachine

/-!
Values of the machine.

Numbers, truth values and texts stand for themselves.  Arrays, objects and
functions are references into a heap, and two references are equal when they
denote the same place, whatever is stored there.
-/

structure ArrayRef where
  index : Nat
deriving DecidableEq, Hashable, Inhabited, Repr

/-- A reference to an object.  Besides the places of the heap there is one
object for every code unit that has a closure instance. -/
inductive ObjectRef where
  | place (index : Nat)
  | closure (unit : Nat)
deriving DecidableEq, Hashable, Inhabited, Repr

structure FunctionRef where
  index : Nat
deriving DecidableEq, Hashable, Inhabited, Repr

/-- A value: data in place, or a reference to the heap. -/
inductive Value where
  | void
  | null
  | bool (value : Bool)
  | int (value : Int32)
  | int64 (value : Int64)
  | uint (value : UInt32)
  | uint64 (value : UInt64)
  | float (value : Float32)
  | double (value : Float)
  | string (value : String)
  | array (ref : ArrayRef)
  | object (ref : ObjectRef)
  | function (ref : FunctionRef)
deriving Inhabited

namespace Value

def kindName : Value -> String
  | .void => "void"
  | .null => "null"
  | .bool _ => "bool"
  | .int _ => "int"
  | .int64 _ => "int64"
  | .uint _ => "uint"
  | .uint64 _ => "uint64"
  | .float _ => "float"
  | .double _ => "double"
  | .string _ => "string"
  | .array _ => "array"
  | .object _ => "object"
  | .function _ => "function"

/-- The value of a literal.  Characters and decimals have none. -/
def ofLiteral? : Literal -> Option Value
  | .null => some .null
  | .bool value => some (.bool value)
  | .int value => some (.int value)
  | .int64 value => some (.int64 value)
  | .uint value => some (.uint value)
  | .uint64 value => some (.uint64 value)
  | .float value => some (.float value)
  | .double value => some (.double value)
  | .string value => some (.string value)
  | .char _ => none
  | .decimal _ _ => none

def isNull : Value -> Bool
  | .null => true
  | _ => false

def isVoid : Value -> Bool
  | .void => true
  | _ => false

def integer? : Value -> Option Int
  | .int value => some value.toInt
  | .int64 value => some value.toInt
  | .uint value => some value.toNat
  | .uint64 value => some value.toNat
  | _ => none

/-- Equality of values.  Values of different kinds differ, references are
compared by identity, and floating-point numbers as numbers. -/
def equals : Value -> Value -> Bool
  | .void, .void => true
  | .null, .null => true
  | .bool left, .bool right => left == right
  | .int left, .int right => left == right
  | .int64 left, .int64 right => left == right
  | .uint left, .uint right => left == right
  | .uint64 left, .uint64 right => left == right
  | .float left, .float right => left == right
  | .double left, .double right => left == right
  | .string left, .string right => left == right
  | .array left, .array right => left == right
  | .object left, .object right => left == right
  | .function left, .function right => left == right
  | _, _ => false

end Value

/-- The kinds of numbers that can be converted into each other. -/
inductive NumericKind where
  | int | int64 | uint | uint64 | float | double
deriving DecidableEq, Inhabited, Repr

namespace NumericKind

def all : List NumericKind := [.int, .int64, .uint, .uint64, .float, .double]

def name : NumericKind -> String
  | .int => "int"
  | .int64 => "int64"
  | .uint => "uint"
  | .uint64 => "uint64"
  | .float => "float"
  | .double => "double"

def typeHash : NumericKind -> TypeHash
  | .int => .int
  | .int64 => .int64
  | .uint => .uint
  | .uint64 => .uint64
  | .float => .float
  | .double => .double

def ofType? (type : TypeHash) : Option NumericKind :=
  all.find? fun kind => kind.typeHash == type

def toByte : NumericKind -> UInt8
  | .int => 0
  | .int64 => 1
  | .uint => 2
  | .uint64 => 3
  | .float => 4
  | .double => 5

def ofByte? (byte : UInt8) : Option NumericKind := all[byte.toNat]?

theorem ofByte?_toByte (kind : NumericKind) : ofByte? kind.toByte = some kind := by
  cases kind <;> rfl

def ofValue? : Value -> Option NumericKind
  | .int _ => some .int
  | .int64 _ => some .int64
  | .uint _ => some .uint
  | .uint64 _ => some .uint64
  | .float _ => some .float
  | .double _ => some .double
  | _ => none

end NumericKind

/-- Parameter and result types of a function; no result type means that the
function returns nothing. -/
structure Signature where
  parameters : List TypeHash
  result : Option TypeHash
deriving DecidableEq, Inhabited

def Signature.arity (signature : Signature) : Nat := signature.parameters.length

def Signature.returnsValue (signature : Signature) : Bool := signature.result.isSome
end OpMachine
