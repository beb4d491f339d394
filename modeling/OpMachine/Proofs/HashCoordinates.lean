import OpMachine.TypeHash

namespace OpMachine
namespace TypeHash

/-!
# Hashes as functions of one coordinate

A fold over parameters multiplies by an odd word and adds the marked parameter.
Multiplication by an odd word can be undone, and so can the addition and the
marking.  So a fold whose seed and other parameters are fixed tells all values of
a parameter apart, wherever it stands, and a fold over fixed parameters tells
all seeds apart.  Nothing is used about the marks, so this holds at positions
past the tabulated ones.
-/

/-- The word that undoes a multiplication by the separator. -/
def separatorInverse : UInt64 := 0xd3f20f0a40208825

theorem separator_mul_inverse : separator * separatorInverse = 1 := by decide

theorem injective_word : Function.Injective word := by
  rintro ⟨_⟩ ⟨_⟩ same
  exact congrArg mk same

variable {first second : UInt64} {position : Nat} {parameter other : TypeHash}

theorem eq_of_mul_separator (same : first * separator = second * separator) : first = second := by
  have undone := congrArg (· * separatorInverse) same
  simpa only [UInt64.mul_assoc, separator_mul_inverse, UInt64.mul_one] using undone

theorem eq_of_absorb_digest
    (same : absorb first position parameter = absorb second position parameter) : first = second :=
  eq_of_mul_separator ((UInt64.add_left_inj _).mp same)

theorem eq_of_absorb_parameter
    (same : absorb first position parameter = absorb first position other) : parameter = other :=
  injective_word ((UInt64.xor_right_inj _).mp ((UInt64.add_right_inj _).mp same))

theorem eq_of_foldFrom
    (same : foldFrom first position parameters = foldFrom second position parameters) :
    first = second := by
  induction parameters generalizing first second position with
  | nil => exact same
  | cons _ _ ih => exact eq_of_absorb_digest (ih same)

theorem foldFrom_append (digest : UInt64) (position : Nat) (front back : List TypeHash) :
    foldFrom digest position (front ++ back)
      = foldFrom (foldFrom digest position front) (position + front.length) back := by
  induction front generalizing digest position with
  | nil => rfl
  | cons _ front ih =>
    rw [List.cons_append, foldFrom, foldFrom, ih, List.length_cons, Nat.add_assoc,
      Nat.add_comm 1]

/-- A hash that changes with the hash it is derived from, and with each single
parameter. -/
structure InjectiveInEach (hash : TypeHash -> List TypeHash -> TypeHash) : Prop where
  start : ∀ parameters, Function.Injective (hash · parameters)
  parameter : ∀ start front back,
    Function.Injective fun parameter => hash start (front ++ parameter :: back)

theorem injectiveInEach_fold {seed : TypeHash -> UInt64} (injective : Function.Injective seed) :
    InjectiveInEach fun start => fold (seed start) where
  start _ _ _ same := injective (eq_of_foldFrom (congrArg word same))
  parameter start front back first second same := by
    have folded := congrArg word same
    simp only [fold, foldFrom_append] at folded
    -- The rest of the list starts from the digests right behind the coordinate.
    exact eq_of_absorb_parameter (eq_of_foldFrom folded)

/-- A seed masked by a word still depends on the hash. -/
theorem injective_mask (mask : UInt64) : Function.Injective (mask ^^^ word ·) :=
  fun _ _ same => injective_word ((UInt64.xor_right_inj mask).mp same)

/-- A change of one coordinate changes the hash of an instance, of a method, of a
constructor and of a closed method.  The coordinate is the definition or the
owner, or one of any number of parameters. -/
theorem hashes_injectiveInEach :
    InjectiveInEach ofInstance ∧ (∀ name, InjectiveInEach (ofMethod · name))
      ∧ InjectiveInEach ofConstructor ∧ InjectiveInEach ofClosedMethod := by
  refine ⟨injectiveInEach_fold injective_word, fun name => injectiveInEach_fold ?_,
    injectiveInEach_fold (injective_mask _), injectiveInEach_fold (injective_mask _)⟩
  intro owner other same
  exact injective_mask methodSeed ((UInt64.xor_left_inj _).mp same)

end TypeHash
end OpMachine
