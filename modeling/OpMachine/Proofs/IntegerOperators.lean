import Mathlib.Data.Int.Bitwise
import OpMachine.Proofs.IntegerKinds
import OpMachine.Proofs.ScalarExecution

namespace OpMachine

/-!
# Operators on integers

Every operator on integers of one kind is exact arithmetic, cut to the width of
the kind.  An operator acts on the bits of its operands, and cutting an integer
to its bits commutes with the operators that wrap; the others are compared with
the integers that the bits are read as.
-/

/-- Instructions without operands, one after the other. -/
def Execute.each (catalog : Catalog) : List Opcode -> Execute Unit
  | [] => return ()
  | opcode :: rest => do
      let _ ← operation catalog opcode
      each catalog rest

open Execute

/-- The instructions of a comparison replace its operands by a truth value. -/
def BinaryOperator.Tells (operator : BinaryOperator) (left right : Value) (truth : Bool) : Prop :=
  ∀ catalog (frame : Frame) heap operands, each catalog operator.opcodes
        ⟨{ frame with operands := right :: left :: operands }, heap⟩
      = .ok () ⟨{ frame with operands := .bool truth :: operands }, heap⟩

theorem Execute.each_test {left right : Value} (test : Value -> Value -> Except RuntimeError Bool)
    (isTest : operation catalog opcode
      = onTwo fun left right => return .bool (← test left right))
    (tests : test left right = .ok truth) (rest : List Opcode) (frame : Frame) (heap : Heap)
    (operands : List Value) :
    each catalog (opcode :: rest) ⟨{ frame with operands := right :: left :: operands }, heap⟩
      = each catalog rest ⟨{ frame with operands := .bool truth :: operands }, heap⟩ := by
  have ran : operation catalog opcode ⟨{ frame with operands := right :: left :: operands }, heap⟩
      = .ok .next ⟨{ frame with operands := .bool truth :: operands }, heap⟩ := by
    rw [isTest, onTwo_run rfl, tests]
    rfl
  exact bind_of_ok ran

open BinaryOperator

namespace IntegerKind

open Arithmetic

/-- An answer is a value of a kind that holds a number. -/
def Gives (kind : IntegerKind) (number : Int) (answer : Except RuntimeError Value) : Prop :=
  ∃ value, answer = .ok value ∧ kind.Holds number value

/-- The operators on two values of a kind compute with the integers that these
hold. -/
structure Computes (kind : IntegerKind) (left right : Value) (x y : Int) : Prop where
  add : kind.Answers (x + y) (binary .add left right)
  sub : kind.Answers (x - y) (binary .sub left right)
  mul : kind.Answers (x * y) (binary .mul left right)
  bitAnd : kind.Answers (Int.land x y) (binary .bitAnd left right)
  bitOr : kind.Answers (Int.lor x y) (binary .bitOr left right)
  bitXor : kind.Answers (Int.xor x y) (binary .bitXor left right)
  bitNot : kind.Answers (-x - 1) (unary .bitNot left)
  neg : if kind.isSigned then kind.Answers (-x) (unary .neg left)
    else unary .neg left = .error (unaryMismatch .neg left)
  byZero : y = 0 -> binary .div left right = .error .divisionByZero
    ∧ binary .rem left right = .error .divisionByZero
  /-- Division truncates, and only the least integer divided by minus one wraps. -/
  divides : y ≠ 0 -> ∃ quotient remainder,
    kind.Gives quotient (binary .div left right) ∧ kind.Gives remainder (binary .rem left right)
      ∧ (quotient * y + remainder) % kind.modulus = x % kind.modulus
      ∧ remainder = x.tmod y
      ∧ (quotient = x.tdiv y ∨ x = kind.lowest ∧ y = -1 ∧ quotient = x ∧ remainder = 0)
  equals : equals.Tells left right (decide (x = y))
  notEquals : notEquals.Tells left right (decide (x ≠ y))
  lessThan : lessThan.Tells left right (decide (x < y))
  lessThanOrEqual : lessThanOrEqual.Tells left right (decide (x ≤ y))
  greaterThan : greaterThan.Tells left right (decide (x > y))
  greaterThanOrEqual : greaterThanOrEqual.Tells left right (decide (x ≥ y))

/-- Shifts multiply by a power of two, or divide by it and round down. -/
structure Shifts (kind : IntegerKind) (left count : Value) (x places : Int) : Prop where
  shl : kind.Answers (x * Nat.pow 2 (places % kind.width).toNat) (binary .shl left count)
  shr : kind.Gives (x / Nat.pow 2 (places % kind.width).toNat) (binary .shr left count)

/-- Operands of different kinds are refused, except that they can be compared
for equality. -/
structure Refuses (left right : Value) : Prop where
  binary (opcode : Opcode) : opcode ≠ .shl -> opcode ≠ .shr ->
    binary opcode left right = .error (binaryMismatch opcode left right)
  compare (opcode : Opcode) :
    compare opcode left right = .error (binaryMismatch opcode left right)
  equals : equals.Tells left right false

variable {kind other : IntegerKind} {left right : Value} {x y : Int}

/-! ## Operators that wrap -/

/-- An operator on words is exact if cutting integers to words commutes with it. -/
theorem answers_binary (onWords : BitVec kind.width -> BitVec kind.width -> BitVec kind.width)
    {exact : Int -> Int -> Int}
    (computes : ∀ a b, binary opcode (kind.ofBits a) (kind.ofBits b)
      = .ok (kind.ofBits (onWords a b))) (cuts : ∀ x y, BitVec.ofInt kind.width (exact x y)
      = onWords (.ofInt kind.width x) (.ofInt kind.width y)) (a b : BitVec kind.width) :
    kind.Answers (exact (kind.number a) (kind.number b))
      (binary opcode (kind.ofBits a) (kind.ofBits b)) := by
  have cut : onWords a b = .ofInt kind.width (exact (kind.number a) (kind.number b)) := by
    rw [cuts, ofInt_number, ofInt_number]
  rw [computes, cut]
  exact answers_wrapped _

theorem getLsbD_ofInt {width place : Nat} (inside : place < width) (number : Int) :
    (BitVec.ofInt width number).getLsbD place = number.testBit place := by
  cases number with
  | ofNat number =>
    refine (congrArg (BitVec.getLsbD · place) (BitVec.ofInt_natCast width number)).trans ?_
    rw [BitVec.getLsbD_ofNat, decide_eq_true inside]
    rfl
  | negSucc number =>
    rw [BitVec.ofInt_negSucc_eq_not_ofNat, BitVec.getLsbD_not, BitVec.getLsbD_ofNat,
      decide_eq_true inside]
    rfl

theorem ofInt_bitwise {width : Nat} {onInts : Int -> Int -> Int} {onBits : Bool -> Bool -> Bool}
    {onWords : BitVec width -> BitVec width -> BitVec width}
    (ints : ∀ x y place,
      (onInts x y).testBit place = onBits (x.testBit place) (y.testBit place))
    (words : ∀ {place a b},
      (onWords a b).getLsbD place = onBits (a.getLsbD place) (b.getLsbD place)) (x y : Int) :
    BitVec.ofInt width (onInts x y) = onWords (.ofInt width x) (.ofInt width y) := by
  refine BitVec.eq_of_getLsbD_eq fun place inside => ?_
  rw [words, getLsbD_ofInt inside, getLsbD_ofInt inside, getLsbD_ofInt inside, ints]

theorem ofInt_sub (width : Nat) (x y : Int) :
    BitVec.ofInt width (x - y) = .ofInt width x - .ofInt width y := by
  rw [Int.sub_eq_add_neg, BitVec.ofInt_add, BitVec.ofInt_neg, BitVec.sub_eq_add_neg]

/-! ## Division -/

def quotient (kind : IntegerKind) (a b : BitVec kind.width) : BitVec kind.width :=
  if kind.isSigned then a.sdiv b else a / b

def remainder (kind : IntegerKind) (a b : BitVec kind.width) : BitVec kind.width :=
  if kind.isSigned then a.srem b else a % b

theorem number_eq_zero_iff : kind.number bits = 0 <-> bits = 0#_ := by
  constructor
  · intro zero
    rw [← ofInt_number bits, zero]
    exact BitVec.ofInt_ofNat ..
  · rintro rfl
    cases kind <;> rfl

theorem divide_ofBits {a b : BitVec kind.width} (nonzero : b ≠ 0#_) :
    binary .div (kind.ofBits a) (kind.ofBits b) = .ok (kind.ofBits (kind.quotient a b))
      ∧ binary .rem (kind.ofBits a) (kind.ofBits b) = .ok (kind.ofBits (kind.remainder a b)) := by
  cases kind with
  | _ =>
    exact ⟨congrArg (· >>= orMismatch .div _ _ _)
        (if_neg fun zero => nonzero (congrArg (·.toBitVec) zero)),
      congrArg (· >>= orMismatch .rem _ _ _)
        (if_neg fun zero => nonzero (congrArg (·.toBitVec) zero))⟩

theorem number_remainder (a b : BitVec kind.width) :
    kind.number (kind.remainder a b) = (kind.number a).tmod (kind.number b) := by
  unfold remainder number
  split
  · exact BitVec.toInt_srem ..
  · rw [BitVec.toNat_umod, Int.ofNat_tmod]

theorem number_quotient (a b : BitVec kind.width) :
    kind.number (kind.quotient a b) = (kind.number a).tdiv (kind.number b)
      ∨ kind.number a = kind.lowest ∧ kind.number b = -1 ∧ kind.quotient a b = a := by
  by_cases signed : kind.isSigned = true
  · simp only [quotient, number, if_pos signed]
    by_cases overflow : a = BitVec.intMin kind.width ∧ b = -1#_
    · obtain ⟨rfl, rfl⟩ := overflow
      have least : (BitVec.intMin kind.width).toInt = kind.lowest := by
        cases kind <;> first | rfl | cases signed
      have minusOne : (-BitVec.ofNat kind.width 1).toInt = -1 := by cases kind <;> rfl
      exact .inr ⟨least, minusOne, BitVec.intMin_sdiv_neg_one⟩
    · exact .inl (BitVec.toInt_sdiv_of_ne_or_ne _ _ (Classical.not_and_iff_not_or_not.mp overflow))
  · simp only [quotient, number, if_neg signed]
    exact .inl (by rw [BitVec.toNat_udiv, Int.ofNat_tdiv])

/-! ## Shifts -/

variable (bits : BitVec kind.width)

theorem toNat_bits : (bits.toNat : Int) = kind.number bits % kind.modulus := by
  have cut := congrArg BitVec.toNat (ofInt_number bits)
  exact (congrArg Nat.cast cut.symm).trans
    (Int.toNat_of_nonneg (Int.emod_nonneg _ kind.modulus_ne_zero))

theorem shiftCount_ofBits : shiftCount? (kind.ofBits bits) = some (.ofNat bits.toNat) := by
  cases kind with
  | int | uint =>
    have same : bits = .ofNat 32 bits.toNat := (BitVec.ofNat_toNat 32 bits).symm
    exact congrArg (fun bits => some (UInt32.ofBitVec bits)) same
  | int64 | uint64 => rfl

/-- The low bits of a count decide, and both widths divide what they count to. -/
theorem count_eq (kind : IntegerKind) (bits : BitVec other.width) :
    (UInt32.ofNat bits.toNat).toNat % kind.width = (other.number bits % kind.width).toNat := by
  have divides : kind.width ∣ 0x100000000 := by cases kind <;> decide
  have whole : (kind.width : Int) ∣ other.modulus := by cases kind <;> cases other <;> decide
  have toNat : (UInt32.ofNat bits.toNat).toNat = bits.toNat % 0x100000000 := rfl
  rw [toNat, Nat.mod_mod_of_dvd _ divides, ← Int.emod_emod_of_dvd _ whole, ← toNat_bits]
  rfl

theorem toNat_smod {width : Nat} {count bound : BitVec width} (small : count.toNat < bound.toNat)
    (positive : bound.msb = false) : (count.smod bound).toNat = count.toNat := by
  have least : count.msb = false := by
    rw [BitVec.msb_eq_decide, decide_eq_false_iff_not] at positive ⊢
    omega
  rw [BitVec.smod_eq, least, positive]
  exact Nat.mod_eq_of_lt small

/-- Bits shifted to the right, with the sign moved in. -/
def shiftedRight (kind : IntegerKind) (bits : BitVec kind.width) (places : Nat) :
    BitVec kind.width :=
  if kind.isSigned then bits.sshiftRight places else bits >>> places

theorem shifted_ofBits (toLeft : Bool) (bits : BitVec kind.width) (count : UInt32) :
    shifted? toLeft (kind.ofBits bits) count = some (kind.ofBits
      (if toLeft then bits <<< (count.toNat % kind.width)
        else kind.shiftedRight bits (count.toNat % kind.width))) := by
  have moved {places : Nat} (same : places = count.toNat % kind.width) :
      some (kind.ofBits (if toLeft then bits <<< places else kind.shiftedRight bits places)) = _ :=
    congrArg (fun places => some (kind.ofBits
      (if toLeft then bits <<< places else kind.shiftedRight bits places))) same
  have wide : (count % 64).toUInt64.toNat = count.toNat % 64 := UInt32.toNat_toUInt64 _
  cases kind with
  | int =>
    have place : ((count % 32).toInt32.toBitVec.smod 32).toNat = count.toNat % 32 :=
      toNat_smod (Nat.mod_lt _ (by decide)) rfl
    cases toLeft <;> exact moved place
  | int64 =>
    have place : ((count % 64).toUInt64.toInt64.toBitVec.smod 64).toNat = count.toNat % 64 :=
      (toNat_smod (wide.trans_lt (Nat.mod_lt _ (by decide))) rfl).trans wide
    cases toLeft <;> exact moved place
  | uint =>
    have place : ((count % 32).toBitVec % 32).toNat = count.toNat % 32 := Nat.mod_mod ..
    cases toLeft <;> exact moved place
  | uint64 =>
    have place : ((count % 64).toUInt64.toBitVec % 64).toNat = count.toNat % 64 :=
      (congrArg (· % 64) wide).trans (Nat.mod_mod ..)
    cases toLeft <;> exact moved place

theorem shift_ofBits (shifts : opcode = .shl ∨ opcode = .shr) (a : BitVec kind.width)
    (b : BitVec other.width) :
    binary opcode (kind.ofBits a) (other.ofBits b) = .ok (kind.ofBits
      (if opcode = .shl then a <<< (other.number b % kind.width).toNat
        else kind.shiftedRight a (other.number b % kind.width).toNat)) := by
  unfold binary
  rw [if_pos shifts, shift, shiftCount_ofBits]
  simp only [shifted_ofBits, count_eq, decide_eq_true_eq]

theorem shiftLeft_eq (places : Nat) :
    bits <<< places = .ofInt kind.width (kind.number bits * Nat.pow 2 places) := by
  have power : BitVec.ofInt kind.width (Nat.pow 2 places : Nat) = .twoPow kind.width places := by
    rw [← BitVec.toNat_inj, BitVec.toNat_twoPow]
    rfl
  rw [BitVec.ofInt_mul, ofInt_number, power, BitVec.shiftLeft_eq_mul_twoPow]

theorem number_shiftedRight (places : Nat) :
    kind.number (kind.shiftedRight bits places) = kind.number bits / Nat.pow 2 places := by
  unfold shiftedRight number
  split
  · rw [BitVec.toInt_sshiftRight, Int.shiftRight_eq_div_pow]
    rfl
  · rw [BitVec.toNat_ushiftRight, Nat.shiftRight_eq_div_pow]
    rfl

theorem shifts_ofBits (a : BitVec kind.width) (b : BitVec other.width) :
    kind.Shifts (kind.ofBits a) (other.ofBits b) (kind.number a) (other.number b) where
  shl := by
    rw [shift_ofBits (.inl rfl), shiftLeft_eq]
    exact answers_wrapped _
  shr := by
    rw [shift_ofBits (.inr rfl)]
    exact ⟨_, rfl, number_shiftedRight a _ ▸ holds_ofBits ..⟩

/-! ## Comparisons -/

theorem less_ofBits (a b : BitVec kind.width) :
    less? (kind.ofBits a) (kind.ofBits b) = some (decide (kind.number a < kind.number b)) := by
  cases kind with
  | int | int64 => exact congrArg some (decide_eq_decide.mpr BitVec.slt_iff_toInt_lt)
  | uint | uint64 => exact congrArg some (decide_eq_decide.mpr Int.ofNat_lt.symm)

theorem lt_ofBits (a b : BitVec kind.width) : Arithmetic.compare .lt (kind.ofBits a) (kind.ofBits b)
      = .ok (decide (kind.number a < kind.number b)) := by
  simp only [Arithmetic.compare, less_ofBits]

theorem gt_ofBits (a b : BitVec kind.width) : Arithmetic.compare .gt (kind.ofBits a) (kind.ofBits b)
      = .ok (decide (kind.number b < kind.number a)) := by
  simp only [Arithmetic.compare, less_ofBits]

theorem number_inj : kind.number a = kind.number b <-> a = b :=
  ⟨fun same => by rw [← ofInt_number a, same, ofInt_number], fun same => same ▸ rfl⟩

theorem equals_ofBits (a b : BitVec kind.width) :
    (kind.ofBits a).equals (kind.ofBits b) = decide (kind.number a = kind.number b) := by
  have onBits : (kind.ofBits a).equals (kind.ofBits b) = decide (a = b) := by
    cases kind with
    | _ =>
      exact decide_eq_decide.mpr ⟨fun same => congrArg (·.toBitVec) same, fun same => same ▸ rfl⟩
  exact onBits.trans (decide_eq_decide.mpr number_inj.symm)

/-! ## All operators -/

theorem computes_ofBits (a b : BitVec kind.width) :
    kind.Computes (kind.ofBits a) (kind.ofBits b) (kind.number a) (kind.number b) where
  add := answers_binary (· + ·) (by cases kind <;> exact fun _ _ => rfl) BitVec.ofInt_add a b
  sub := answers_binary (· - ·) (by cases kind <;> exact fun _ _ => rfl) (ofInt_sub _) a b
  mul := answers_binary (· * ·) (by cases kind <;> exact fun _ _ => rfl) BitVec.ofInt_mul a b
  bitAnd := answers_binary (· &&& ·) (by cases kind <;> exact fun _ _ => rfl)
    (ofInt_bitwise Int.testBit_land BitVec.getLsbD_and) a b
  bitOr := answers_binary (· ||| ·) (by cases kind <;> exact fun _ _ => rfl)
    (ofInt_bitwise Int.testBit_lor BitVec.getLsbD_or) a b
  bitXor := answers_binary (· ^^^ ·) (by cases kind <;> exact fun _ _ => rfl)
    (ofInt_bitwise Int.testBit_lxor BitVec.getLsbD_xor) a b
  bitNot := by
    have complement : unary .bitNot (kind.ofBits a) = .ok (kind.ofBits (~~~a)) := by
      cases kind <;> rfl
    have cut : ~~~a = .ofInt kind.width (-kind.number a - 1) := by
      rw [ofInt_sub, BitVec.ofInt_neg, ofInt_number, BitVec.not_eq_neg_add]
      rfl
    rw [complement, cut]
    exact answers_wrapped _
  neg := by
    split
    next signed =>
      have opposite : unary .neg (kind.ofBits a) = .ok (kind.ofBits (-a)) := by
        cases kind <;> first | rfl | cases signed
      rw [opposite, ← ofInt_number a, ← BitVec.ofInt_neg, ofInt_number]
      exact answers_wrapped _
    next unsigned => cases kind <;> first | rfl | exact absurd rfl unsigned
  byZero := by
    intro zero
    rw [number_eq_zero_iff.mp zero]
    cases kind <;> exact ⟨rfl, rfl⟩
  divides := by
    intro nonzero
    have nonzeroBits : b ≠ 0#_ := fun zero => nonzero (number_eq_zero_iff.mpr zero)
    obtain ⟨divided, reduced⟩ := @divide_ofBits kind a b nonzeroBits
    refine ⟨_, _, ⟨_, divided, holds_ofBits ..⟩, ⟨_, reduced, holds_ofBits ..⟩, ?_⟩
    rw [number_remainder]
    rcases number_quotient a b with whole | ⟨least, minusOne, wraps⟩
    · exact ⟨by rw [whole, Int.tdiv_mul_add_tmod], rfl, .inl whole⟩
    · rw [wraps, minusOne, Int.tmod_neg, Int.tmod_one]
      refine ⟨?_, rfl, .inr ⟨least, rfl, rfl, rfl⟩⟩
      rw [least]
      cases kind <;> rfl
  equals _ := by
    rw [← equals_ofBits]
    exact each_test (fun left right => .ok (left.equals right)) rfl rfl []
  notEquals _ := by
    rw [decide_not, ← equals_ofBits]
    exact each_test (fun left right => .ok (left.equals right)) rfl rfl [.not]
  lessThan _ := each_test (Arithmetic.compare .lt) rfl (lt_ofBits a b) []
  lessThanOrEqual _ := by
    rw [decide_eq_decide.mpr Int.not_lt.symm, decide_not]
    exact each_test (Arithmetic.compare .gt) rfl (gt_ofBits a b) [.not]
  greaterThan _ := each_test (Arithmetic.compare .gt) rfl (gt_ofBits a b) []
  greaterThanOrEqual _ := by
    rw [decide_eq_decide.mpr Int.not_lt.symm, decide_not]
    exact each_test (Arithmetic.compare .lt) rfl (lt_ofBits a b) [.not]

theorem refuses_ofBits (different : kind ≠ other) (a : BitVec kind.width) (b : BitVec other.width) :
    Refuses (kind.ofBits a) (other.ofBits b) where
  binary opcode notLeft notRight := by
    unfold binary
    rw [if_neg (not_or.mpr ⟨notLeft, notRight⟩)]
    have joins : joined opcode (kind.ofBits a) (other.ofBits b)
        = .error (binaryMismatch opcode (kind.ofBits a) (other.ofBits b)) := by
      unfold joined
      split
      next isText => cases kind <;> cases isText
      next isText _ => cases other <;> cases isText
      next => rfl
    cases kind <;> cases other <;> first | exact joins | exact absurd rfl different
  compare opcode := by
    have neither : less? (kind.ofBits a) (other.ofBits b) = none
        ∧ less? (other.ofBits b) (kind.ofBits a) = none := by
      cases kind <;> cases other <;> first | exact ⟨rfl, rfl⟩ | exact absurd rfl different
    unfold Arithmetic.compare
    split <;> simp only [neither]
  equals _ := by
    have differs : (kind.ofBits a).equals (other.ofBits b) = false := by
      cases kind <;> cases other <;> first | rfl | exact absurd rfl different
    exact each_test (fun left right => .ok (left.equals right)) rfl (congrArg Except.ok differs) []

/-- Operators on integers are exact arithmetic modulo two to the power of the
width, and take operands of one kind, except for the counts of shifts. -/
theorem operators_exact (first : kind.Holds x left) (second : kind.Holds y right) :
    kind.Computes left right x y ∧ (∀ (counting : IntegerKind) (count : Value) (places : Int),
        counting.Holds places count -> kind.Shifts left count x places)
      ∧ ∀ (other : IntegerKind) (operand : Value) (z : Int),
        other.Holds z operand -> kind ≠ other -> Refuses left operand := by
  obtain ⟨a, rfl, rfl⟩ := first.exists_bits
  obtain ⟨b, rfl, rfl⟩ := second.exists_bits
  refine ⟨computes_ofBits a b, fun counting count places holds => ?_,
    fun other operand z holds different => ?_⟩
  · obtain ⟨bits, rfl, rfl⟩ := holds.exists_bits
    exact shifts_ofBits a bits
  · obtain ⟨bits, rfl, rfl⟩ := holds.exists_bits
    exact refuses_ofBits different a bits

/-- The least word meets minus one, a negative count and a wide word. -/
theorem least_operators_exact : int.Computes (.int (-0x80000000)) (.int (-1)) (-0x80000000) (-1)
      ∧ int.Shifts (.int (-0x80000000)) (.int64 (-31)) (-0x80000000) (-31)
      ∧ Refuses (.int (-0x80000000)) (.int64 (-31)) := by
  have least : int.Holds (-0x80000000) (.int (-0x80000000)) := ⟨rfl, rfl⟩
  have minusOne : int.Holds (-1) (.int (-1)) := ⟨rfl, rfl⟩
  have wide : int64.Holds (-31) (.int64 (-31)) := ⟨rfl, rfl⟩
  obtain ⟨computes, shifts, refuses⟩ := operators_exact least minusOne
  exact ⟨computes, shifts int64 _ _ wide, refuses int64 _ _ wide IntegerKind.noConfusion⟩

end IntegerKind
end OpMachine
