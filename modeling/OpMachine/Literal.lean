import OpMachine.Descriptor

namespace OpMachine

/-!
Literals: the compile-time constants that an operation can carry.
-/

inductive Literal where
  | null
  | bool (value : Bool)
  | int (value : Int32)
  | int64 (value : Int64)
  | uint (value : UInt32)
  | uint64 (value : UInt64)
  | float (value : Float32)
  | double (value : Float)
  | string (value : String)
  | char (value : Char)
  | decimal (digits : Int) (scale : Nat)

def Literal.kindName : Literal -> String
  | .null => "null"
  | .bool _ => "bool"
  | .int _ => "int"
  | .int64 _ => "int64"
  | .uint _ => "uint"
  | .uint64 _ => "uint64"
  | .float _ => "float"
  | .double _ => "double"
  | .string _ => "string"
  | .char _ => "char"
  | .decimal _ _ => "decimal"

def Literal.descriptor : Literal -> Option Descriptor
  | .null => none
  | literal => some (.simple literal.kindName)
end OpMachine
