import OpMachine.Error
import OpMachine.Floating.Decimal
import OpMachine.Value

namespace OpMachine
namespace Format

/-!
Texts of values.

A format is a letter and an optional precision.  `D` writes an integer in
decimal with at least that many digits, `X` and `x` write it in hexadecimal at
its own width, `F` writes a number with that many places after the point, `N`
does so with its digits in groups of three, and `G` writes it as without a
format.  A positive alignment pads on the left and a negative one on the right.
-/

def plain : Value -> List Char
  | .void => []
  | .null => []
  | .bool value => (toString value).toList
  | .int value => (toString value.toInt).toList
  | .int64 value => (toString value.toInt).toList
  | .uint value => (toString value.toNat).toList
  | .uint64 value => (toString value.toNat).toList
  | .float value => (Floating.text32 value).toList
  | .double value => (Floating.text value).toList
  | .string value => value.toList
  | other => other.kindName.toList

/-- The number that decimal digits stand for, if they are digits only. -/
def parseDigits (number : Nat) : List Char -> Option Nat
  | [] => some number
  | digit :: rest =>
      if digit.isDigit then parseDigits (10 * number + (digit.toNat - '0'.toNat)) rest
      else none

/-- A precision: digits after an optional plus sign, fitting 64 bits. -/
def parsePrecision (characters : List Char) : Option Nat :=
  let digits := match characters with
    | '+' :: rest => rest
    | other => other
  if digits.isEmpty then none
  else (parseDigits 0 digits).filter (· < UInt64.size)

/-- The text of an integer with a least number of digits; the sign stands
before them. -/
def decimal (precision : Nat) (number : Int) : List Char :=
  let digits := Text.padLeft '0' precision (Text.decimalDigits number.natAbs)
  if number < 0 then '-' :: digits else digits

def bits? : Value -> Option Nat
  | .int value => some value.toUInt32.toNat
  | .int64 value => some value.toUInt64.toNat
  | .uint value => some value.toNat
  | .uint64 value => some value.toNat
  | _ => none

def double? : Value -> Option Float
  | .int value => some value.toFloat
  | .int64 value => some value.toFloat
  | .uint value => some value.toFloat
  | .uint64 value => some value.toFloat
  | .float value => some value.toFloat
  | .double value => some value
  | _ => none

/-- Commas between groups of three, counted from the end. -/
def group : List Char -> List Char
  | [] => []
  | digit :: rest =>
      if rest.length % 3 = 0 ∧ rest ≠ [] then digit :: ',' :: group rest
      else digit :: group rest

def grouped (precision : Nat) (number : Float) : List Char :=
  let fixed := Floating.fixedText precision number.abs
  let text := group (fixed.takeWhile (· != '.')) ++ fixed.dropWhile (· != '.')
  if number < 0 then '-' :: text else text

def formatted? (letter : Char) (precision : Option Nat) (value : Value) :
    Option (List Char) :=
  match letter with
  | 'G' | 'g' => some (plain value)
  | 'D' | 'd' => value.integer?.map (decimal (precision.getD 0))
  | 'X' => (bits? value).map fun bits =>
      (Text.hexDigits (precision.getD 0) bits).map Char.toUpper
  | 'x' => (bits? value).map (Text.hexDigits (precision.getD 0))
  | 'F' | 'f' => (double? value).map (Floating.fixedText (precision.getD 2))
  | 'N' | 'n' => (double? value).map (grouped (precision.getD 2))
  | _ => none

def specified? (value : Value) : List Char -> Option (List Char)
  | [] => none
  | [letter] => formatted? letter none value
  | letter :: precision => do
      let precision ← parsePrecision precision
      formatted? letter (some precision) value

/-- Padding with blanks to the width that an alignment asks for. -/
def align (alignment : Int32) (text : List Char) : List Char :=
  let width := alignment.toInt.natAbs
  if 0 < alignment.toInt then Text.padLeft ' ' width text else Text.padRight ' ' width text

/-- The text of a value with an alignment and a format.  An empty format is
none, and no alignment is zero. -/
def value (value : Value) (alignment : Option Int32) (format : Option String) :
    Except RuntimeError String :=
  let text := match format with
    | none => some (plain value)
    | some specifier => if specifier.isEmpty then some (plain value)
        else specified? value specifier.toList
  match text with
  | some text => .ok (.ofList (align (alignment.getD 0) text))
  | none => .error (.invalidFormat (format.getD ""))

end Format
end OpMachine
