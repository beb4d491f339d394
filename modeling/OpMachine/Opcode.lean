namespace OpMachine

/-!
Operation codes.

An instruction is one byte that names the operation, followed by its operands.
Operands of two bytes have the more significant byte first.  The machine is a
stack machine: operands of an operation are pushed before it.
-/

inductive Opcode where
  | constant | constantWide | pushNull | pushTrue | pushFalse | pushDefault
  | pop | dup
  | getArg | setArg | getLocal | setLocal
  | add | sub | mul | div | rem | neg
  | bitAnd | bitOr | bitXor | bitNot | shl | shr
  | eq | lt | gt | not
  | convert
  | jump | jumpIfFalse | loop
  | callStatic | callMethod | callVirtual | callUnit | callSelf
  | new | returnValue | returnVoid
  | getField | setField
  | getProperty | getPropertyVirtual | getStaticProperty
  | setProperty | setPropertyVirtual | setStaticProperty
  | newArray | loadElement | storeElement
  | loadDelegate | invokeDelegate
deriving DecidableEq, Inhabited, Repr

namespace Opcode

def all : Array Opcode :=
  #[.constant, .constantWide, .pushNull, .pushTrue, .pushFalse, .pushDefault,
    .pop, .dup,
    .getArg, .setArg, .getLocal, .setLocal,
    .add, .sub, .mul, .div, .rem, .neg,
    .bitAnd, .bitOr, .bitXor, .bitNot, .shl, .shr,
    .eq, .lt, .gt, .not,
    .convert,
    .jump, .jumpIfFalse, .loop,
    .callStatic, .callMethod, .callVirtual, .callUnit, .callSelf,
    .new, .returnValue, .returnVoid,
    .getField, .setField,
    .getProperty, .getPropertyVirtual, .getStaticProperty,
    .setProperty, .setPropertyVirtual, .setStaticProperty,
    .newArray, .loadElement, .storeElement,
    .loadDelegate, .invokeDelegate]

def toByte (opcode : Opcode) : UInt8 := opcode.ctorIdx.toUInt8

def ofByte? (byte : UInt8) : Option Opcode := all[byte.toNat]?

theorem ofByte?_toByte (opcode : Opcode) : ofByte? opcode.toByte = some opcode := by
  cases opcode <;> rfl

def operandSize : Opcode -> Nat
  | .constant | .getArg | .setArg | .convert | .callSelf
  | .loadElement | .storeElement | .loadDelegate | .invokeDelegate => 1
  | .constantWide | .pushDefault | .getLocal | .setLocal
  | .jump | .jumpIfFalse | .loop | .callUnit
  | .getField | .setField
  | .getProperty | .getPropertyVirtual | .getStaticProperty
  | .setProperty | .setPropertyVirtual | .setStaticProperty => 2
  | .callStatic | .callMethod | .callVirtual | .newArray => 3
  | .new => 5
  | _ => 0

def name : Opcode -> String
  | .constant => "CONSTANT"
  | .constantWide => "CONSTANT_WIDE"
  | .pushNull => "PUSH_NULL"
  | .pushTrue => "PUSH_TRUE"
  | .pushFalse => "PUSH_FALSE"
  | .pushDefault => "PUSH_DEFAULT"
  | .pop => "POP"
  | .dup => "DUP"
  | .getArg => "GET_ARG"
  | .setArg => "SET_ARG"
  | .getLocal => "GET_LOCAL"
  | .setLocal => "SET_LOCAL"
  | .add => "ADD"
  | .sub => "SUB"
  | .mul => "MUL"
  | .div => "DIV"
  | .rem => "REM"
  | .neg => "NEG"
  | .bitAnd => "BIT_AND"
  | .bitOr => "BIT_OR"
  | .bitXor => "BIT_XOR"
  | .bitNot => "BIT_NOT"
  | .shl => "SHL"
  | .shr => "SHR"
  | .eq => "EQ"
  | .lt => "LT"
  | .gt => "GT"
  | .not => "NOT"
  | .convert => "CONVERT"
  | .jump => "JUMP"
  | .jumpIfFalse => "JUMP_IF_FALSE"
  | .loop => "LOOP"
  | .callStatic => "CALL_STATIC"
  | .callMethod => "CALL_METHOD"
  | .callVirtual => "CALL_VIRTUAL"
  | .callUnit => "CALL_UNIT"
  | .callSelf => "CALL_SELF"
  | .new => "NEW"
  | .returnValue => "RETURN"
  | .returnVoid => "RETURN_VOID"
  | .getField => "GET_FIELD"
  | .setField => "SET_FIELD"
  | .getProperty => "GET_PROPERTY"
  | .getPropertyVirtual => "GET_PROPERTY_VIRTUAL"
  | .getStaticProperty => "GET_STATIC_PROPERTY"
  | .setProperty => "SET_PROPERTY"
  | .setPropertyVirtual => "SET_PROPERTY_VIRTUAL"
  | .setStaticProperty => "SET_STATIC_PROPERTY"
  | .newArray => "NEW_ARRAY"
  | .loadElement => "LOAD_ELEMENT"
  | .storeElement => "STORE_ELEMENT"
  | .loadDelegate => "LOAD_DELEGATE"
  | .invokeDelegate => "INVOKE_DELEGATE"

def ofName? (name : String) : Option Opcode :=
  all.find? fun opcode => opcode.name == name

end Opcode
end OpMachine
