namespace OpMachine
namespace Floating

/-!
Binary floating-point numbers as integers.

A layout says how many bits of a word hold the fraction and how many hold the
exponent.  Reading a word gives its sign, significand and binary exponent as
exact integers, which is what digits and remainders are computed from.
-/

/-- The widths of a floating-point format. -/
structure Layout where
  fractionBits : Nat
  exponentBits : Nat

namespace Layout

def single : Layout := ⟨23, 8⟩

def double : Layout := ⟨52, 11⟩

variable (layout : Layout)

def leastExponent : Int :=
  2 - (1 <<< (layout.exponentBits - 1) : Nat) - layout.fractionBits

/-- The significand at which a new power of two begins. -/
def hiddenBit : Nat := 1 <<< layout.fractionBits

def fieldCount : Nat := 1 <<< layout.exponentBits

end Layout

structure Finite where
  negative : Bool
  significand : Nat
  exponent : Int

inductive Reading where
  | nan
  | infinite (negative : Bool)
  | finite (number : Finite)

def Layout.read (layout : Layout) (word : Nat) : Reading :=
  let fraction := word % layout.hiddenBit
  let field := word / layout.hiddenBit % layout.fieldCount
  let negative := word / layout.hiddenBit / layout.fieldCount % 2 == 1
  if field = layout.fieldCount - 1 then
    if fraction = 0 then .infinite negative else .nan
  else if field = 0 then
    .finite ⟨negative, fraction, layout.leastExponent⟩
  else
    .finite ⟨negative, layout.hiddenBit + fraction, layout.leastExponent + field - 1⟩

def Layout.write (layout : Layout) (number : Finite) : Nat :=
  let sign := if number.negative then layout.hiddenBit * layout.fieldCount else 0
  if number.significand = 0 then sign
  else
    -- the highest exponent of the last place that keeps every bit
    let lifted := number.exponent + Nat.log2 number.significand - layout.fractionBits
    let exponent := max layout.leastExponent lifted
    let significand :=
      if exponent ≤ number.exponent then
        number.significand <<< (number.exponent - exponent).toNat
      else
        number.significand >>> (exponent - number.exponent).toNat
    let field := if significand < layout.hiddenBit then 0
      else (exponent - layout.leastExponent).toNat + 1
    sign + field * layout.hiddenBit + significand % layout.hiddenBit

/-- The remainder of a division that rounds towards zero.  It has the sign of
the dividend and is always representable exactly. -/
def Finite.remainder (dividend divisor : Finite) : Finite :=
  let exponent := min dividend.exponent divisor.exponent
  let top := dividend.significand <<< (dividend.exponent - exponent).toNat
  let bottom := divisor.significand <<< (divisor.exponent - exponent).toNat
  ⟨dividend.negative, top % bottom, exponent⟩

/-- The remainder of two words of a layout; `nan` is the word of a missing result. -/
def remainderWord (layout : Layout) (nan dividend divisor : Nat) : Nat :=
  match layout.read dividend, layout.read divisor with
  | .finite top, .finite bottom =>
      if bottom.significand = 0 then nan else layout.write (top.remainder bottom)
  | .finite _, .infinite _ => dividend
  | _, _ => nan

def remainder (dividend divisor : Float) : Float :=
  .ofBits (remainderWord .double 0x7ff8000000000000
    dividend.toBits.toNat divisor.toBits.toNat).toUInt64

def remainder32 (dividend divisor : Float32) : Float32 :=
  .ofBits (remainderWord .single 0x7fc00000
    dividend.toBits.toNat divisor.toBits.toNat).toUInt32

end Floating
end OpMachine
