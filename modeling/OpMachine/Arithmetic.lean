import OpMachine.Floating.Layout
import OpMachine.Format
import OpMachine.Opcode

namespace OpMachine
namespace Arithmetic

/-!
Operators on values.

The operands of a binary operator are of one kind, except for shifts, whose
count may be an integer of any kind, and for the concatenation of a text with
any value.  Integers wrap at their width, and dividing them by zero fails.
-/

variable (opcode : Opcode)

def binaryMismatch (left right : Value) : RuntimeError :=
  .typeMismatch ("matching operands for " ++ opcode.name)
    (left.kindName ++ " and " ++ right.kindName)

def unaryMismatch (operand : Value) : RuntimeError :=
  .typeMismatch ("operand for " ++ opcode.name) operand.kindName

/-- An operator on two integers of one kind.  The result is missing when the
operator does not apply to integers. -/
def integers {α : Type} [Add α] [Sub α] [Mul α] [Div α] [Mod α] [AndOp α] [OrOp α] [XorOp α]
    [OfNat α 0] [DecidableEq α] (opcode : Opcode) (left right : α) :
    Except RuntimeError (Option α) :=
  match opcode with
  | .add => .ok (some (left + right))
  | .sub => .ok (some (left - right))
  | .mul => .ok (some (left * right))
  | .div => if right = 0 then .error .divisionByZero else .ok (some (left / right))
  | .rem => if right = 0 then .error .divisionByZero else .ok (some (left % right))
  | .bitAnd => .ok (some (left &&& right))
  | .bitOr => .ok (some (left ||| right))
  | .bitXor => .ok (some (left ^^^ right))
  | _ => .ok none

def floats {α : Type} [Add α] [Sub α] [Mul α] [Div α] (remainder : α -> α -> α) (opcode : Opcode)
    (left right : α) : Option α :=
  match opcode with
  | .add => some (left + right)
  | .sub => some (left - right)
  | .mul => some (left * right)
  | .div => some (left / right)
  | .rem => some (remainder left right)
  | _ => none

def bools (left right : Bool) : Option Bool :=
  match opcode with
  | .bitAnd => some (left && right)
  | .bitOr => some (left || right)
  | .bitXor => some (left ^^ right)
  | _ => none

/-- The count of a shift: the low 32 bits of an integer of any kind. -/
def shiftCount? : Value -> Option UInt32
  | .int count => some count.toUInt32
  | .int64 count => some count.toUInt64.toUInt32
  | .uint count => some count
  | .uint64 count => some count.toUInt32
  | _ => none

def shifted? (toLeft : Bool) (value : Value) (count : UInt32) : Option Value :=
  let narrow := count % 32
  let wide := (count % 64).toUInt64
  match value with
  | .int number =>
      some (.int (if toLeft then number <<< narrow.toInt32 else number >>> narrow.toInt32))
  | .int64 number =>
      some (.int64 (if toLeft then number <<< wide.toInt64 else number >>> wide.toInt64))
  | .uint number => some (.uint (if toLeft then number <<< narrow else number >>> narrow))
  | .uint64 number => some (.uint64 (if toLeft then number <<< wide else number >>> wide))
  | _ => none

def shift (left right : Value) : Except RuntimeError Value :=
  match shiftCount? right with
  | none => .error (binaryMismatch opcode left right)
  | some count =>
      match shifted? (opcode = .shl) left count with
      | some value => .ok value
      | none => .error (binaryMismatch opcode left right)

def concatenation (left right : Value) : Value :=
  .string (.ofList (Format.plain left ++ Format.plain right))

/-- Operands that no operator joins, except that texts are concatenated. -/
def joined (left right : Value) : Except RuntimeError Value :=
  match opcode, left, right with
  | .add, .string _, _ => .ok (concatenation left right)
  | .add, _, .string _ => .ok (concatenation left right)
  | _, _, _ => .error (binaryMismatch opcode left right)

/-- A result, or the complaint that the operator does not apply. -/
def orMismatch {α : Type} (opcode : Opcode) (left right : Value) (wrap : α -> Value) :
    Option α -> Except RuntimeError Value
  | some result => .ok (wrap result)
  | none => .error (binaryMismatch opcode left right)

def binary (left right : Value) : Except RuntimeError Value :=
  if opcode = .shl ∨ opcode = .shr then shift opcode left right
  else
    match left, right with
    | .int a, .int b => do orMismatch opcode left right .int (← integers opcode a b)
    | .int64 a, .int64 b => do orMismatch opcode left right .int64 (← integers opcode a b)
    | .uint a, .uint b => do orMismatch opcode left right .uint (← integers opcode a b)
    | .uint64 a, .uint64 b => do orMismatch opcode left right .uint64 (← integers opcode a b)
    | .float a, .float b =>
        orMismatch opcode left right .float (floats Floating.remainder32 opcode a b)
    | .double a, .double b =>
        orMismatch opcode left right .double (floats Floating.remainder opcode a b)
    | .bool a, .bool b => orMismatch opcode left right .bool (bools opcode a b)
    | _, _ => joined opcode left right

def unary (operand : Value) : Except RuntimeError Value :=
  match opcode, operand with
  | .neg, .int value => .ok (.int (-value))
  | .neg, .int64 value => .ok (.int64 (-value))
  | .neg, .float value => .ok (.float (-value))
  | .neg, .double value => .ok (.double (-value))
  | .not, .bool value => .ok (.bool !value)
  | .bitNot, .int value => .ok (.int (~~~value))
  | .bitNot, .int64 value => .ok (.int64 (~~~value))
  | .bitNot, .uint value => .ok (.uint (~~~value))
  | .bitNot, .uint64 value => .ok (.uint64 (~~~value))
  | _, _ => .error (unaryMismatch opcode operand)

/-- Whether the first of two values of one kind is the smaller one.  Texts are
compared character by character, and a quantity that is not a number is
neither smaller nor greater than anything. -/
def less? : Value -> Value -> Option Bool
  | .int left, .int right => some (left < right)
  | .int64 left, .int64 right => some (left < right)
  | .uint left, .uint right => some (left < right)
  | .uint64 left, .uint64 right => some (left < right)
  | .float left, .float right => some (left < right)
  | .double left, .double right => some (left < right)
  | .string left, .string right => some (left < right)
  | _, _ => none

def compare (left right : Value) : Except RuntimeError Bool :=
  let result := match opcode with
    | .lt => less? left right
    | .gt => less? right left
    | _ => none
  match result with
  | some result => .ok result
  | none => .error (binaryMismatch opcode left right)

variable (kind : NumericKind)

def ofInteger (value : Int) : Value :=
  match kind with
  | .int => .int (.ofInt value)
  | .int64 => .int64 (.ofInt value)
  | .uint => .uint (.ofInt value)
  | .uint64 => .uint64 (.ofInt value)
  | .float => .float (if value < 0 then (Int64.ofInt value).toFloat32
      else (UInt64.ofInt value).toFloat32)
  | .double => .double (if value < 0 then (Int64.ofInt value).toFloat
      else (UInt64.ofInt value).toFloat)

/-- A floating-point number cut to an integer of a kind.  What lies outside
the range of the kind becomes its nearest end, and what is not a number zero. -/
def ofDouble (value : Float) : Value :=
  match kind with
  | .int => .int value.toInt32
  | .int64 => .int64 value.toInt64
  | .uint => .uint value.toUInt32
  | .uint64 => .uint64 value.toUInt64
  | .float => .float value.toFloat32
  | .double => .double value

def convert (value : Value) : Except RuntimeError Value :=
  match value with
  | .float number => .ok (ofDouble kind number.toFloat)
  | .double number => .ok (ofDouble kind number)
  | other =>
      match other.integer? with
      | some number => .ok (ofInteger kind number)
      | none => .error (unaryMismatch .convert other)

end Arithmetic
end OpMachine
