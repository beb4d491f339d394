import OpMachine.Arithmetic
import OpMachine.Conversion

namespace OpMachine

/-!
# Integer kinds

The integers of the machine are words of 32 or 64 bits, read with or without a
sign.  The values of a kind are the residues modulo two to the power of its
width, so every integer has exactly one value of the kind that is congruent to
it, and a conversion without a check finds that one.  A checked reading gives
the same value if the integer is one of the kind, and refuses it otherwise.
-/

/-- The kinds of numbers that are integers. -/
inductive IntegerKind where
  | int | int64 | uint | uint64

namespace IntegerKind

def numeric : IntegerKind -> NumericKind
  | .int => .int
  | .int64 => .int64
  | .uint => .uint
  | .uint64 => .uint64

/-- The shape in which a host reads the integers of a kind. -/
def shape : IntegerKind -> Shape
  | .int => .int
  | .int64 => .int64
  | .uint => .uint
  | .uint64 => .uint64

def isSigned : IntegerKind -> Bool
  | .int | .int64 => true
  | .uint | .uint64 => false

def width : IntegerKind -> Nat
  | .int | .uint => 32
  | .int64 | .uint64 => 64

def modulus (kind : IntegerKind) : Nat := Nat.pow 2 kind.width

def lowest (kind : IntegerKind) : Int := if kind.isSigned then -(kind.modulus / 2) else 0

def highest (kind : IntegerKind) : Int := kind.lowest + kind.modulus - 1

def Fits (kind : IntegerKind) (number : Int) : Prop :=
  kind.lowest ≤ number ∧ number ≤ kind.highest

/-- A value is of a kind and holds an integer. -/
structure Holds (kind : IntegerKind) (number : Int) (value : Value) : Prop where
  isKind : NumericKind.ofValue? value = some kind.numeric
  isNumber : value.integer? = some number

/-- A value of a kind holds an integer congruent to a number. -/
def Wraps (kind : IntegerKind) (number : Int) (value : Value) : Prop :=
  ∃ held, kind.Holds held value ∧ held % kind.modulus = number % kind.modulus

/-- An answer is the one value of a kind that is congruent to a number. -/
def Answers (kind : IntegerKind) (number : Int) (answer : Except RuntimeError Value) : Prop :=
  ∃ value, answer = .ok value ∧ ∀ other, kind.Wraps number other <-> other = value

/-! ## Words -/

def ofBits : (kind : IntegerKind) -> BitVec kind.width -> Value
  | .int, bits => .int (.ofBitVec bits)
  | .int64, bits => .int64 (.ofBitVec bits)
  | .uint, bits => .uint (.ofBitVec bits)
  | .uint64, bits => .uint64 (.ofBitVec bits)

/-- The value of a kind that is congruent to a number. -/
def wrapped (kind : IntegerKind) (number : Int) : Value := kind.ofBits (.ofInt kind.width number)

def number (kind : IntegerKind) (bits : BitVec kind.width) : Int :=
  if kind.isSigned then bits.toInt else bits.toNat

variable {kind : IntegerKind} {value : Value} {number : Int}

theorem holds_ofBits (kind : IntegerKind) (bits : BitVec kind.width) :
    kind.Holds (kind.number bits) (kind.ofBits bits) := by
  cases kind with
  | _ => exact ⟨rfl, rfl⟩

theorem Holds.exists_bits (holds : kind.Holds number value) :
    ∃ bits, value = kind.ofBits bits ∧ number = kind.number bits := by
  obtain ⟨isKind, isNumber⟩ := holds
  cases kind <;> cases value <;> cases isKind <;> cases isNumber <;> exact ⟨_, rfl, rfl⟩

theorem ofInt_number (bits : BitVec kind.width) :
    BitVec.ofInt kind.width (kind.number bits) = bits := by
  unfold number
  split
  · exact BitVec.ofInt_toInt
  · rw [BitVec.ofInt_natCast, BitVec.ofNat_toNat, BitVec.setWidth_eq]

theorem modulus_ne_zero (kind : IntegerKind) : (kind.modulus : Int) ≠ 0 := by
  cases kind <;> decide

theorem ofInt_eq_iff :
    BitVec.ofInt kind.width first = BitVec.ofInt kind.width second
      <-> first % kind.modulus = second % kind.modulus := by
  rw [← BitVec.toNat_inj]
  change (first % kind.modulus).toNat = (second % kind.modulus).toNat <-> _
  have := Int.emod_nonneg first kind.modulus_ne_zero
  have := Int.emod_nonneg second kind.modulus_ne_zero
  omega

theorem wraps_iff : kind.Wraps number value <-> value = kind.wrapped number := by
  constructor
  · intro wraps
    obtain ⟨held, holds, congruent⟩ := wraps
    obtain ⟨bits, rfl, rfl⟩ := holds.exists_bits
    rw [wrapped, ← ofInt_eq_iff.mpr congruent, ofInt_number]
  · intro same
    subst same
    exact ⟨_, holds_ofBits .., ofInt_eq_iff.mp (ofInt_number _)⟩

theorem answers_wrapped (number : Int) : kind.Answers number (.ok (kind.wrapped number)) :=
  ⟨_, rfl, fun _ => wraps_iff⟩

theorem number_ofInt (fits : kind.Fits number) :
    kind.number (.ofInt kind.width number) = number := by
  obtain ⟨low, high⟩ := fits
  unfold highest at high
  unfold lowest at low high
  unfold IntegerKind.number
  split at low
  next signed =>
    have above : -(kind.modulus : Int) ≤ number * 2 := by omega
    have below : number * 2 < kind.modulus := by
      rw [if_pos signed] at high
      omega
    rw [if_pos signed, BitVec.toInt_ofInt]
    exact Int.bmod_eq_of_le_mul_two above below
  next unsigned =>
    have below : number < kind.modulus := by omega
    rw [if_neg unsigned]
    change ((number % kind.modulus).toNat : Int) = number
    rw [Int.emod_eq_of_lt low below, Int.toNat_of_nonneg low]

theorem holds_wrapped (fits : kind.Fits number) : kind.Holds number (kind.wrapped number) := by
  have holds := holds_ofBits kind (.ofInt kind.width number)
  rwa [number_ofInt fits] at holds

/-! ## Conversions -/

theorem ofNat_toNat (positive : 0 ≤ number) :
    BitVec.ofNat kind.width number.toNat = .ofInt kind.width number := by
  rw [← BitVec.ofInt_natCast, Int.toNat_of_nonneg positive]

theorem convert_eq (isNumber : value.integer? = some number) (kind : IntegerKind) :
    Arithmetic.convert kind.numeric value = .ok (kind.wrapped number) := by
  have cut : BitVec.ofNat kind.width (number % kind.modulus).toNat = .ofInt kind.width number := by
    rw [ofNat_toNat (Int.emod_nonneg _ kind.modulus_ne_zero), ofInt_eq_iff, Int.emod_emod]
  have integral : Arithmetic.ofInteger kind.numeric number = kind.wrapped number := by
    cases kind with
    | int | int64 => rfl
    | uint => exact congrArg (fun bits => Value.uint (.ofBitVec bits)) cut
    | uint64 => exact congrArg (fun bits => Value.uint64 (.ofBitVec bits)) cut
  cases value <;> cases isNumber <;> exact congrArg Except.ok integral

/-- The shapes of the kinds differ in their range and in how they cut a number
that lies in it. -/
theorem read_eq (kind : IntegerKind) (value : Value) (heap : Heap) : kind.shape.read value heap = do
      let number ← Conversion.readInteger kind.shape.expectation kind.lowest kind.highest value
      return (kind.ofBits (if kind.isSigned then .ofInt _ number else .ofNat _ number.toNat),
        heap) := by
  cases kind with
  | _ => exact bind_assoc ..

theorem read_of_fits (isNumber : value.integer? = some number) (fits : kind.Fits number)
    (heap : Heap) : kind.shape.read value heap = .ok (kind.wrapped number, heap) := by
  have inRange : kind.lowest ≤ number ∧ number ≤ kind.highest := fits
  simp only [read_eq, Conversion.readInteger, isNumber, if_pos inRange]
  refine congrArg (fun bits => Except.ok (kind.ofBits bits, heap)) ?_
  split
  · rfl
  next unsigned =>
    have positive : 0 ≤ number := by simpa only [lowest, if_neg unsigned] using fits.1
    exact ofNat_toNat positive

theorem read_of_not_fits (isNumber : value.integer? = some number) (fits : ¬ kind.Fits number)
    (heap : Heap) : kind.shape.read value heap
      = .error (.integerOverflow number kind.shape.expectation) := by
  have outside : ¬ (kind.lowest ≤ number ∧ number ≤ kind.highest) := fits
  simp only [read_eq, Conversion.readInteger, isNumber, if_neg outside]
  rfl

/-- A detour over kinds that are as wide does not change a conversion. -/
theorem convert_detour (isNumber : value.integer? = some number) (chain : List IntegerKind)
    (wide : ∀ passed, passed ∈ chain -> kind.width ≤ passed.width) :
    (chain.foldlM (fun value passed => Arithmetic.convert passed.numeric value) value
        >>= Arithmetic.convert kind.numeric)
      = Arithmetic.convert kind.numeric value := by
  induction chain generalizing value number with
  | nil => rfl
  | cons passed chain ih =>
    obtain ⟨held, ⟨_, isHeld⟩, congruent⟩ := wraps_iff.mpr (rfl : passed.wrapped number = _)
    have divides : (kind.modulus : Int) ∣ passed.modulus :=
      Int.natCast_dvd_natCast.mpr (Nat.pow_dvd_pow 2 (wide passed (.head _)))
    have same : held % kind.modulus = number % kind.modulus := by
      rw [← Int.emod_emod_of_dvd held divides, congruent, Int.emod_emod_of_dvd number divides]
    rw [List.foldlM_cons, convert_eq isNumber passed, convert_eq isNumber kind]
    refine (ih isHeld fun other member => wide other (.tail _ member)).trans ?_
    rw [convert_eq isHeld, wrapped, wrapped, ofInt_eq_iff.mpr same]

/-- Conversions and checked readings of an integer fit together. -/
theorem conversions_fit (isNumber : value.integer? = some number) (kind : IntegerKind)
    (heap : Heap) :
    kind.Answers number (Arithmetic.convert kind.numeric value)
      ∧ (kind.Fits number -> ∃ read, kind.shape.read value heap = .ok (read, heap)
        ∧ kind.Holds number read ∧ Arithmetic.convert kind.numeric value = .ok read)
      ∧ (¬ kind.Fits number -> kind.shape.read value heap
        = .error (.integerOverflow number kind.shape.expectation))
      ∧ ∀ chain : List IntegerKind,
        (∀ passed, passed ∈ chain -> kind.width ≤ passed.width) ->
        (chain.foldlM (fun value passed => Arithmetic.convert passed.numeric value) value
            >>= Arithmetic.convert kind.numeric)
          = Arithmetic.convert kind.numeric value := by
  refine ⟨?_, fun fits => ?_, fun fits => read_of_not_fits isNumber fits heap,
    fun chain wide => convert_detour isNumber chain wide⟩
  · rw [convert_eq isNumber]
    exact answers_wrapped number
  · exact ⟨_, read_of_fits isNumber fits heap, holds_wrapped fits, convert_eq isNumber kind⟩

/-- Minus one is no unsigned word: it is refused when read, and becomes the
greatest one when it is converted, also by way of wider kinds. -/
theorem minusOne_conversions_fit :
    uint.Answers (-1) (Arithmetic.convert .uint (.int (-1))) ∧ ¬ uint.Fits (-1)
      ∧ Shape.uint.read (.int (-1)) {} = .error (.integerOverflow (-1) "u32")
      ∧ ([int64, uint64].foldlM (fun value passed => Arithmetic.convert passed.numeric value)
          (.int (-1)) >>= Arithmetic.convert .uint) = Arithmetic.convert .uint (.int (-1)) := by
  have isNumber : (Value.int (-1)).integer? = some (-1) := rfl
  have outside : ¬ uint.Fits (-1) := by
    unfold Fits
    decide
  obtain ⟨answers, _, refuses, detours⟩ := conversions_fit isNumber uint {}
  exact ⟨answers, outside, refuses outside, detours [int64, uint64] (by decide)⟩

end IntegerKind
end OpMachine
