import OpMachine.Proofs.IntegerKinds

namespace OpMachine
namespace Format

/-!
# Texts of integers

The formats `D`, `X` and `x` write an integer with a least number of digits, and
an alignment pads the text.  Nothing is lost: without the padding, the text
reads back as the integer, or as its residue at its own width.
-/

open Text

/-- A format of a letter and the digits of a precision. -/
def specifier (letter : Char) (precision : Option UInt16) : String :=
  .ofList (letter :: precision.elim [] fun least => decimalDigits least.toNat)

def least (precision : Option UInt16) : Nat := precision.elim 0 UInt16.toNat

/-- A value is written as a text that is padded with blanks to the width of an
alignment, on the side that its sign names. -/
def Shows (value : Value) (alignment : Option Int32) (format : String) (shown : List Char) :
    Prop :=
  let width := (alignment.getD 0).toInt
  let blanks := List.replicate (width.natAbs - shown.length) ' '
  ∃ text, Format.value value alignment (some format) = .ok text
    ∧ text.toList = (if 0 < width then blanks ++ shown else shown ++ blanks)
    ∧ text.length = max shown.length width.natAbs

variable {digits : List Char}

/-! ## Decimal digits -/

theorem head?_decimalDigits (positive : 0 < number) :
    (decimalDigits number).head? ≠ some '0' := by
  induction number using Nat.strongRecOn with
  | ind number ih =>
    rw [decimalDigits, Nat.toDigits_eq_if (by decide)]
    split
    · simp only [List.head?_cons, ne_eq, Option.some.injEq, Nat.digitChar_eq_zero]
      omega
    · rw [List.head?_append, Option.or_of_isSome (List.isSome_head?.mpr
        (List.ne_nil_of_length_pos Nat.length_toDigits_pos))]
      exact ih (number / 10) (by omega) (by omega)

/-- Zeros stand in front of a number only to reach the digits asked for. -/
theorem head?_padLeft
    (longer : max 1 width < (padLeft '0' width (decimalDigits number)).length) :
    (padLeft '0' width (decimalDigits number)).head? ≠ some '0' := by
  rw [length_padLeft] at longer
  have unpadded : width - (decimalDigits number).length = 0 := by omega
  rw [padLeft, unpadded]
  refine head?_decimalDigits (Nat.pos_of_ne_zero fun zero => ?_)
  have single : (decimalDigits 0).length = 1 := rfl
  rw [zero, single] at longer
  omega

theorem isDigit_padLeft (member : digit ∈ padLeft '0' width (decimalDigits number)) :
    digit.isDigit := by
  rcases List.mem_append.mp member with zero | digit
  · rw [List.eq_of_mem_replicate zero]
    rfl
  · exact Nat.isDigit_of_mem_toDigits (by decide) (by decide) digit

theorem parseDigits_eq (isDigit : ∀ digit, digit ∈ digits -> digit.isDigit) :
    parseDigits number digits = some (Nat.ofDigitChars 10 digits number) := by
  induction digits generalizing number with
  | nil => rfl
  | cons digit rest ih =>
    rw [parseDigits, if_pos (isDigit digit (.head _))]
    exact ih fun other member => isDigit other (.tail _ member)

theorem parseDigits_padLeft (width number : Nat) :
    parseDigits 0 (padLeft '0' width (decimalDigits number)) = some number := by
  rw [parseDigits_eq fun _ => isDigit_padLeft, padLeft, Nat.ofDigitChars_append,
    Nat.ofDigitChars_replicate_zero]
  exact congrArg some Nat.ofDigitChars_ten_toDigits

theorem parsePrecision_decimalDigits (precision : UInt16) :
    parsePrecision (decimalDigits precision.toNat) = some precision.toNat := by
  have reads := parseDigits_padLeft 0 precision.toNat
  rw [padLeft, Nat.zero_sub, List.replicate_zero, List.nil_append] at reads
  have small : precision.toNat < UInt64.size := Nat.lt_trans precision.toNat_lt (by decide)
  have nonempty : decimalDigits precision.toNat ≠ [] :=
    List.ne_nil_of_length_pos Nat.length_toDigits_pos
  unfold parsePrecision
  split
  next rest signed =>
    rw [signed] at reads
    cases reads
  · rw [if_neg (by simpa using nonempty), reads, Option.filter_some, if_pos (by simpa using small)]

/-! ## Hexadecimal digits -/

section

variable {case : Char -> Char}
  (kept : ∀ digit, digit < 16 -> hexDigit? (case digit.digitChar) = some digit)

include kept

theorem ofHex?_replicate (count : Nat) :
    ofHex? ((List.replicate count '0').map case) = some 0 := by
  induction count with
  | zero => rfl
  | succ count ih =>
    have zero : hexDigit? (case '0') = some 0 := kept 0 (by decide)
    rw [List.replicate_succ, List.map_cons, ofHex?, List.foldlM_cons, zero]
    exact ih

theorem ofHex?_toDigits (number : Nat) :
    ofHex? ((Nat.toDigits 16 number).map case) = some number := by
  induction number using Nat.strongRecOn with
  | ind number ih =>
    rw [Nat.toDigits_eq_if (by decide)]
    split
    next small => simp [ofHex?, kept number small]
    · have last := kept (number % 16) (Nat.mod_lt _ (by decide))
      have front := ih (number / 16) (by omega)
      rw [ofHex?] at front
      rw [List.map_append, ofHex?, List.foldlM_append, front]
      simp only [List.map_cons, List.map_nil, List.foldlM_cons, last]
      exact congrArg some (Nat.div_add_mod number 16)

theorem ofHex?_hexDigits (width number : Nat) :
    ofHex? ((hexDigits width number).map case) = some number := by
  have zeros := ofHex?_replicate kept (width - (Nat.toDigits 16 number).length)
  have digits := ofHex?_toDigits kept number
  rw [ofHex?] at zeros digits
  rw [hexDigits, padLeft, List.map_append, ofHex?, List.foldlM_append, zeros]
  exact digits

end

/-! ## Formats -/

theorem shows_of_formatted? {held : Value} {precision : Option UInt16}
    (written : formatted? letter (precision.map UInt16.toNat) held = some shown)
    (alignment : Option Int32) : Shows held alignment (specifier letter precision) shown := by
  have specified : specified? held (specifier letter precision).toList = some shown := by
    rw [specifier, String.toList_ofList]
    cases precision with
    | none => exact written
    | some precision =>
      rw [Option.elim_some, specified?, parsePrecision_decimalDigits]
      · exact written
      · exact List.ne_nil_of_length_pos Nat.length_toDigits_pos
  refine ⟨.ofList (align (alignment.getD 0) shown), ?_, ?_, ?_⟩
  · have given : (specifier letter precision).isEmpty = false := by simp [specifier]
    simp only [value, specified, given, Bool.false_eq_true, if_false]
  · rw [String.toList_ofList, align]
    rfl
  · rw [String.length_ofList, align]
    split
    · rw [length_padLeft, Nat.max_comm]
    · rw [length_padRight, Nat.max_comm]

theorem bits?_ofBits (kind : IntegerKind) (bits : BitVec kind.width) :
    bits? (kind.ofBits bits) = some (kind.number bits % kind.modulus).toNat := by
  have same := congrArg BitVec.toNat (IntegerKind.ofInt_number bits)
  change (kind.number bits % kind.modulus).toNat = bits.toNat at same
  rw [same]
  cases kind with
  | _ => rfl

/-- The decimal and the hexadecimal text of every integer read back, for every
precision and alignment. -/
theorem integer_reads_back (kind : IntegerKind) (bits : BitVec kind.width)
    (precision : Option UInt16) (alignment : Option Int32) :
    (∃ digits, Shows (kind.ofBits bits) alignment (specifier 'D' precision)
        (if kind.number bits < 0 then '-' :: digits else digits)
      ∧ parseDigits 0 digits = some (kind.number bits).natAbs
      ∧ max 1 (least precision) ≤ digits.length
      ∧ (max 1 (least precision) < digits.length -> digits.head? ≠ some '0'))
    ∧ ∀ upper : Bool, ∃ digits,
      Shows (kind.ofBits bits) alignment (specifier (if upper then 'X' else 'x') precision) digits
      ∧ ofHex? digits = some (kind.number bits % kind.modulus).toNat
      ∧ max 1 (least precision) ≤ digits.length := by
  constructor
  · refine ⟨_, shows_of_formatted? ?_ alignment, parseDigits_padLeft (least precision) _, ?_,
      head?_padLeft⟩
    · cases precision with
      | _ => exact congrArg (Option.map _) (IntegerKind.holds_ofBits kind bits).isNumber
    · have := Nat.length_toDigits_pos (b := 10) (n := (kind.number bits).natAbs)
      simp only [length_padLeft, decimalDigits]
      omega
  · intro upper
    let case := if upper then Char.toUpper else id
    have kept : ∀ digit, digit < 16 -> hexDigit? (case digit.digitChar) = some digit := by
      cases upper <;> decide
    have reads := ofHex?_hexDigits kept (least precision)
      (kind.number bits % kind.modulus).toNat
    refine ⟨_, shows_of_formatted? ?_ alignment, reads, ?_⟩
    · cases upper <;> cases precision <;> simp [formatted?, bits?_ofBits, least, case]
    · have := Nat.length_toDigits_pos (b := 16) (n := (kind.number bits % kind.modulus).toNat)
      simp only [List.length_map, hexDigits, length_padLeft]
      omega

end Format
end OpMachine
