namespace OpMachine
namespace Text

/-!
Digits of natural numbers and padding of short texts.

Everything here works on lists of characters, so that lengths and appended
pieces can be reasoned about without going through byte positions.  The text
of a number is built from `Nat.toDigits`, whose digits run from `0` to `f`.
-/

variable (filler : Char)

def padLeft (width : Nat) (characters : List Char) : List Char :=
  List.replicate (width - characters.length) filler ++ characters

def padRight (width : Nat) (characters : List Char) : List Char :=
  characters ++ List.replicate (width - characters.length) filler

/-- Decimal digits, most significant first and without leading zeros. -/
def decimalDigits (number : Nat) : List Char :=
  Nat.toDigits 10 number

variable (width number : Nat)

/-- Lower-case hexadecimal digits, padded with zeros to a least width. -/
def hexDigits : List Char :=
  padLeft '0' width (Nat.toDigits 16 number)

def hex : String :=
  String.ofList (hexDigits width number)

def hexDigit? (digit : Char) : Option Nat :=
  if '0' ≤ digit ∧ digit ≤ '9' then some (digit.toNat - '0'.toNat)
  else if 'a' ≤ digit ∧ digit ≤ 'f' then some (digit.toNat - 'a'.toNat + 10)
  else if 'A' ≤ digit ∧ digit ≤ 'F' then some (digit.toNat - 'A'.toNat + 10)
  else none

def ofHex? (digits : List Char) : Option Nat :=
  digits.foldlM (fun number digit => (hexDigit? digit).map (16 * number + ·)) 0

@[simp]
theorem length_padLeft (width : Nat) (characters : List Char) :
    (padLeft filler width characters).length = max width characters.length := by
  simp only [padLeft, List.length_append, List.length_replicate]
  omega

@[simp]
theorem length_padRight (width : Nat) (characters : List Char) :
    (padRight filler width characters).length = max width characters.length := by
  simp only [padRight, List.length_append, List.length_replicate]
  omega

end Text
end OpMachine
