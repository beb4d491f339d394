import Std.Data.HashMap
import OpMachine.Floating.Decimal
import OpMachine.Text.Quoted
import OpMachine.Value

namespace OpMachine

/-!
Constant pools.

Code refers to numbers, texts and hashes by their index in the pool of its
method.  A pool keeps one constant for each key.  Two constants have the same
key when they are of one kind and equal; for floating-point numbers all
quantities that are not a number have one key, and so have the two zeros.
-/

/-- What code loads or names by an index. -/
inductive Constant where
  | int (value : Int32)
  | int64 (value : Int64)
  | uint (value : UInt32)
  | uint64 (value : UInt64)
  | float (value : Float32)
  | double (value : Float)
  | string (value : String)
  | hash (value : TypeHash)
deriving Inhabited

/-- What tells two constants of a pool apart. -/
inductive ConstantKey where
  | int (value : Int32)
  | int64 (value : Int64)
  | uint (value : UInt32)
  | uint64 (value : UInt64)
  | float (bits : UInt32)
  | double (bits : UInt64)
  | string (value : String)
  | hash (value : TypeHash)
deriving DecidableEq, Hashable

namespace Constant

/-- The bits that stand for a 32-bit number among equal ones. -/
def floatKey (value : Float32) : UInt32 :=
  if value.isNaN then 0x7fc00000 else if value == 0 then 0 else value.toBits

/-- The bits that stand for a 64-bit number among equal ones. -/
def doubleKey (value : Float) : UInt64 :=
  if value.isNaN then 0x7ff8000000000000 else if value == 0 then 0 else value.toBits

def key : Constant -> ConstantKey
  | .int value => .int value
  | .int64 value => .int64 value
  | .uint value => .uint value
  | .uint64 value => .uint64 value
  | .float value => .float (floatKey value)
  | .double value => .double (doubleKey value)
  | .string value => .string value
  | .hash value => .hash value

/-- The value that loading a constant pushes; a hash is no value. -/
def value? : Constant -> Option Value
  | .int value => some (.int value)
  | .int64 value => some (.int64 value)
  | .uint value => some (.uint value)
  | .uint64 value => some (.uint64 value)
  | .float value => some (.float value)
  | .double value => some (.double value)
  | .string value => some (.string value)
  | .hash _ => none

def hash? : Constant -> Option TypeHash
  | .hash value => some value
  | _ => none

/-- A constant as listings show it, with a mark for its kind. -/
def text : Constant -> String
  | .int value => toString value.toInt
  | .int64 value => toString value.toInt ++ "L"
  | .uint value => toString value.toNat ++ "u"
  | .uint64 value => toString value.toNat ++ "UL"
  | .float value => Floating.text32 value ++ "f"
  | .double value => Floating.text value ++ "d"
  | .string value => Text.quoted value
  | .hash value => value.text

end Constant

/-- The constants of a method.  An index has 32 bits. -/
structure ConstantPool where
  constants : Array Constant := #[]
  positions : Std.HashMap ConstantKey UInt32 := {}
deriving Inhabited

namespace ConstantPool

variable (pool : ConstantPool)

def size : Nat := pool.constants.size

def get? (index : Nat) : Option Constant := pool.constants[index]?

/-- The index of a constant, which is appended unless its key is present.  In
a pool of more constants than there are indices the index starts from zero. -/
def add (constant : Constant) : UInt32 × ConstantPool :=
  match pool.positions[constant.key]? with
  | some index => (index, pool)
  | none =>
      let index := pool.size.toUInt32
      (index,
        { constants := pool.constants.push constant
          positions := pool.positions.insert constant.key index })

end ConstantPool
end OpMachine
