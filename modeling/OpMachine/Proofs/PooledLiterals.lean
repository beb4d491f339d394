import OpMachine.Proofs.StackDiscipline
import OpMachine.Proofs.TranslatedParts

namespace OpMachine

/-!
# Literals in constant pools

A pool hands out the index of the first constant with a key, so what a literal
loads depends on the constants before it.  For every kind but the floating-point
ones a key determines its constant.  Among floating-point numbers a key
determines the number unless it is zero: the two zeros have one key, and the one
that came first is loaded for both.  Quantities that are not a number have one
pattern of bits, so nothing is lost there.

The first part says which constant a sequence of additions finds, and that its
index stays its own.  The second part carries this to the code of literals, in
every method of a compilation.
-/

/-! ## Keys -/

open Float.Model in
/-- A valid pattern of bits that is not a number is the one pattern for it. -/
private theorem eq_packedNaN_of_isNaN {format : Format} {bits : BitVec format.numBits}
    (valid : format.Valid bits) (notANumber : (UnpackedFloat.unpack format bits).isNaN = true) :
    bits = UnpackedFloat.packedNaN format := by
  change UnpackedFloat.isNaN (ite (UnpackedFloat.unpackExponent bits = -BitVec.ofNat _ 1) _ _) = true
    at notANumber
  by_cases exponent : UnpackedFloat.unpackExponent bits = -BitVec.ofNat _ 1
  · by_cases mantissa : UnpackedFloat.unpackMantissa bits = BitVec.ofNat _ 0
    · rw [if_pos exponent, if_pos mantissa] at notANumber
      cases notANumber
    · exact valid.eq_packedNaN exponent mantissa
  · rw [if_neg exponent] at notANumber
    by_cases zero : UnpackedFloat.unpackExponent bits = BitVec.ofNat _ 0
    · rw [if_pos zero] at notANumber
      by_cases mantissa : UnpackedFloat.unpackMantissa bits = BitVec.ofNat _ 0
      · rw [dif_pos mantissa] at notANumber
        cases notANumber
      · rw [dif_neg mantissa] at notANumber
        cases notANumber
    · rw [if_neg zero] at notANumber
      cases notANumber

open Float.Model in
private theorem beq_of_isNaN {first : UnpackedFloat} (second : UnpackedFloat)
    (notANumber : first.isNaN = true) : first.beq second = false := by
  cases first with
  | notANumber => cases second <;> rfl
  | _ => cases notANumber

/-- Replacing what is zero by one zero joins nothing else. -/
private theorem replaced_eq_iff {Number : Type} {isZero : Number -> Bool} {zero : Number}
    (zeroIsZero : isZero zero = true) (first second : Number) :
    (if isZero first then zero else first) = (if isZero second then zero else second)
      ↔ first = second ∨ isZero first = true ∧ isZero second = true := by
  cases atFirst : isZero first <;> cases atSecond : isZero second
  · exact ⟨.inl, fun either => either.elim id fun both => nomatch both.1⟩
  · refine ⟨fun same => ?_, fun either => either.elim (fun same => ?_) fun both => nomatch both.1⟩
    · have isZeroFirst : isZero first = true := (congrArg isZero same).trans zeroIsZero
      exact nomatch atFirst.symm.trans isZeroFirst
    · exact nomatch atFirst.symm.trans ((congrArg isZero same).trans atSecond)
  · refine ⟨fun same => ?_, fun either => either.elim (fun same => ?_) fun both => nomatch both.2⟩
    · have isZeroSecond : isZero second = true := (congrArg isZero same.symm).trans zeroIsZero
      exact nomatch atSecond.symm.trans isZeroSecond
    · exact nomatch atSecond.symm.trans ((congrArg isZero same.symm).trans atFirst)
  · exact ⟨fun _ => .inr ⟨rfl, rfl⟩, fun _ => rfl⟩

namespace Constant

theorem floatKey_eq (number : Float32) :
    floatKey number = (if number == 0 then 0 else number).toBits := by
  unfold floatKey
  split
  · rename_i notANumber
    have noZero : (number == 0) = false := beq_of_isNaN _ notANumber
    rw [noZero]
    exact (congrArg UInt32.ofBitVec (eq_packedNaN_of_isNaN number.toModel.valid notANumber)).symm
  · split <;> rfl

theorem doubleKey_eq (number : Float) :
    doubleKey number = (if number == 0 then 0 else number).toBits := by
  unfold doubleKey
  split
  · rename_i notANumber
    have noZero : (number == 0) = false := beq_of_isNaN _ notANumber
    rw [noZero]
    exact (congrArg UInt64.ofBitVec (eq_packedNaN_of_isNaN number.toModel.valid notANumber)).symm
  · split <;> rfl

theorem float_eq_of_toBits {first second : Float32} (same : first.toBits = second.toBits) :
    first = second := by
  obtain ⟨⟨bits, _⟩⟩ := first
  obtain ⟨⟨others, validOthers⟩⟩ := second
  cases (same : bits = others)
  rfl

theorem double_eq_of_toBits {first second : Float} (same : first.toBits = second.toBits) :
    first = second := by
  obtain ⟨⟨bits, _⟩⟩ := first
  obtain ⟨⟨others, validOthers⟩⟩ := second
  cases (same : bits = others)
  rfl

/-- Two constants are zeros of one floating-point kind, of whatever sign. -/
inductive BothZero : Constant -> Constant -> Prop
  | float (firstZero : (first == 0) = true) (secondZero : (second == 0) = true) :
      BothZero (.float first) (.float second)
  | double (firstZero : (first == 0) = true) (secondZero : (second == 0) = true) :
      BothZero (.double first) (.double second)

theorem key_eq_iff (first second : Constant) :
    first.key = second.key ↔ first = second ∨ first.BothZero second := by
  refine ⟨fun same => ?_, ?_⟩
  · cases first with
    | float number =>
      cases second with
      | float other =>
        have sameBits := ConstantKey.float.inj same
        rw [floatKey_eq, floatKey_eq] at sameBits
        rcases (@replaced_eq_iff Float32 (· == 0) 0 (by decide) number other).mp
          (float_eq_of_toBits sameBits) with rfl | ⟨isZero, otherZero⟩
        · exact .inl rfl
        · exact .inr (.float isZero otherZero)
      | _ => cases same
    | double number =>
      cases second with
      | double other =>
        have sameBits := ConstantKey.double.inj same
        rw [doubleKey_eq, doubleKey_eq] at sameBits
        rcases (@replaced_eq_iff Float (· == 0) 0 (by decide) number other).mp
          (double_eq_of_toBits sameBits) with rfl | ⟨isZero, otherZero⟩
        · exact .inl rfl
        · exact .inr (.double isZero otherZero)
      | _ => cases same
    | _ =>
      cases second <;> cases same
      exact .inl rfl
  · rintro (rfl | ⟨isZero, otherZero⟩ | ⟨isZero, otherZero⟩)
    · rfl
    · refine congrArg ConstantKey.float ?_
      rw [floatKey_eq, floatKey_eq, isZero, otherZero]
      rfl
    · refine congrArg ConstantKey.double ?_
      rw [doubleKey_eq, doubleKey_eq, isZero, otherZero]
      rfl

end Constant

/-! ## Sequences of additions -/

namespace ConstantPool

def ofList (constants : List Constant) : ConstantPool :=
  constants.foldl (fun pool constant => (pool.add constant).2) {}

/-- The keys of a pool are those of its constants, each known at the position of
its constant.  No two constants have one key. -/
structure Indexed (pool : ConstantPool) : Prop where
  listed : ∀ position constant, pool.get? position = some constant ->
    pool.positions[constant.key]? = some position.toUInt32
  known : ∀ key index, pool.positions[key]? = some index ->
    ∃ position, (pool.get? position).map Constant.key = some key
  distinct : ∀ constant first second, pool.Has first constant -> pool.Has second constant ->
    first = second

namespace Indexed

variable {pool : ConstantPool} (indexed : pool.Indexed) (constant : Constant)

include indexed

theorem position_of_has (present : pool.Has position constant) :
    pool.positions[constant.key]? = some position.toUInt32 := by
  obtain ⟨stored, found, sameKey⟩ := present
  exact sameKey ▸ indexed.listed position stored found

theorem has_of_position (found : pool.positions[constant.key]? = some index) :
    ∃ position, pool.Has position constant ∧ index = position.toUInt32 := by
  obtain ⟨position, isThere⟩ := indexed.known _ index found
  have present : pool.Has position constant := Option.map_eq_some_iff.mp isThere
  refine ⟨position, present, ?_⟩
  exact Option.some.inj (found.symm.trans (indexed.position_of_has constant present))

/-- A constant whose key is present is found, and any other is appended. -/
theorem add_cases :
    (∃ position, pool.Has position constant
        ∧ pool.add constant = (position.toUInt32, pool))
      ∨ (∀ position, ¬ pool.Has position constant)
        ∧ (pool.add constant).1 = pool.size.toUInt32
        ∧ (pool.add constant).2.constants = pool.constants.push constant := by
  cases found : pool.positions[constant.key]? with
  | some index =>
    obtain ⟨position, present, rfl⟩ := indexed.has_of_position constant found
    exact .inl ⟨position, present, by rw [add, found]⟩
  | none =>
    refine .inr ⟨fun position present => ?_, by rw [add, found], by rw [add, found]⟩
    exact nomatch found.symm.trans (indexed.position_of_has _ present)

theorem add : (pool.add constant).2.Indexed := by
  cases found : pool.positions[constant.key]? with
  | some =>
    rw [ConstantPool.add, found]
    exact indexed
  | none =>
    have absent {position : Nat} {stored : Constant} (isThere : pool.get? position = some stored) :
        stored.key ≠ constant.key := by
      intro same
      exact nomatch found.symm.trans (indexed.position_of_has _ ⟨stored, isThere, same⟩)
    have outside : pool.get? pool.size = none := Array.getElem?_size
    obtain ⟨listed, known, distinct⟩ := indexed
    rw [ConstantPool.add, found]
    constructor
    · intro position stored
      simp only [get?, Array.getElem?_push, Std.HashMap.getElem?_insert]
      unfold get? size at *
      grind
    · intro key index
      simp only [get?, Array.getElem?_push, Std.HashMap.getElem?_insert]
      unfold get? size at *
      grind
    · rintro other first second ⟨one, isOne, oneKey⟩ ⟨two, isTwo, twoKey⟩
      simp only [get?, Array.getElem?_push] at isOne isTwo
      split at isOne <;> split at isTwo
      · rename_i isLast isLastToo
        rw [isLast, isLastToo]
      · cases isOne
        exact absurd (twoKey.trans oneKey.symm) (absent isTwo)
      · cases isTwo
        exact absurd (oneKey.trans twoKey.symm) (absent isOne)
      · exact distinct other first second ⟨one, isOne, oneKey⟩ ⟨two, isTwo, twoKey⟩

/-- While there are indices for all constants, a key is known where it is. -/
theorem located (few : pool.size ≤ UInt32.size) : pool.Located := by
  intro key index found
  obtain ⟨position, isThere⟩ := indexed.known key index found
  obtain ⟨stored, stored?, rfl⟩ := Option.map_eq_some_iff.mp isThere
  cases found.symm.trans (indexed.listed position stored stored?)
  have inside : position < pool.size := (Array.getElem?_eq_some_iff.mp stored?).1
  have isPosition : position.toUInt32.toNat = position :=
    UInt32.toNat_ofNat_of_lt (Nat.lt_of_lt_of_le inside few)
  rw [isPosition]
  exact ⟨stored, stored?, rfl⟩

/-- A constant is the only one with its key, and so the first. -/
theorem find?_of_get? (found : pool.get? index = some stored) :
    pool.constants.toList.find? (·.key = stored.key) = some stored := by
  obtain ⟨inside, isStored⟩ := Array.getElem?_eq_some_iff.mp found
  refine List.find?_eq_some_iff_getElem.mpr ⟨decide_eq_true rfl, index, inside, isStored, ?_⟩
  intro earlier before
  rw [Bool.not_eq_true', decide_eq_false_iff_not]
  intro same
  have isEarlier : pool.get? earlier = _ := Array.getElem?_eq_getElem (before.trans inside)
  exact Nat.ne_of_lt before (indexed.distinct stored _ _ ⟨_, isEarlier, same⟩ ⟨_, found, rfl⟩)

/-- An addition leads to the first constant with each key. -/
theorem find?_add (key : ConstantKey) :
    (pool.add constant).2.constants.toList.find? (·.key = key)
      = (pool.constants.toList ++ [constant]).find? (·.key = key) := by
  rcases indexed.add_cases constant with ⟨_, ⟨stored, found, sameKey⟩, same⟩ | ⟨_, _, pushed⟩
  · rw [same, List.find?_append]
    by_cases isKey : stored.key = key
    · rw [← isKey, indexed.find?_of_get? found, Option.some_or]
    · simp [← sameKey, isKey]
  · rw [pushed, Array.toList_push]

end Indexed

theorem ofList_concat (added : List Constant) (constant : Constant) :
    ofList (added ++ [constant]) = ((ofList added).add constant).2 := List.foldl_append

theorem indexed_ofList (added : List Constant) : (ofList added).Indexed := by
  refine List.foldlRecOn added _ ⟨nofun, fun key index found => ?_, ?_⟩ fun _ indexed constant _ =>
    indexed.add constant
  · cases Std.HashMap.getElem?_empty.symm.trans found
  · rintro _ _ _ ⟨_, found, _⟩
    cases found

theorem find?_ofList (added : List Constant) (key : ConstantKey) :
    (ofList added).constants.toList.find? (·.key = key) = added.find? (·.key = key) := by
  induction added using List.reverseRecOn with
  | nil => rfl
  | append_singleton rest constant ih =>
    rw [ofList_concat, (indexed_ofList rest).find?_add, List.find?_append, ih, List.find?_append]

/-- After any additions for which there are indices an addition finds the first
constant with its key, which is the constant itself unless both are zero. -/
theorem get?_add_ofList (constants : List Constant) (few : (ofList constants).size < UInt32.size)
    (constant : Constant) : ∃ stored,
      ((ofList constants).add constant).2.get? ((ofList constants).add constant).1.toNat
          = some stored
        ∧ (constants ++ [constant]).find? (·.key = constant.key) = some stored
        ∧ (stored = constant ∨ stored.BothZero constant) := by
  have indexed := indexed_ofList constants
  obtain ⟨stored, isStored, sameKey⟩ := has_add few (indexed.located (Nat.le_of_lt few)) constant
  refine ⟨stored, isStored, ?_, (Constant.key_eq_iff _ _).mp sameKey⟩
  rw [← find?_ofList, ofList_concat, ← sameKey]
  exact (indexed.add constant).find?_of_get? isStored

end ConstantPool

/-! ## The code of literals -/

/-- What the code of a literal pushes: its value, or a zero in the place of a
zero. -/
inductive Literal.Pushes : Literal -> Value -> Prop
  | same (isValue : Value.ofLiteral? literal = some value) : Pushes literal value
  | floatZero (isZero : (number == 0) = true) (pushedZero : (pushed == 0) = true) :
      Pushes (.float number) (.float pushed)
  | doubleZero (isZero : (number == 0) = true) (pushedZero : (pushed == 0) = true) :
      Pushes (.double number) (.double pushed)

/-- An instruction pushes a value and leads to a position. -/
def Frame.PushesTo (catalog : Catalog) (frame : Frame) (value : Value) (position : Nat) : Prop :=
  ∀ heap, Execute.instruction catalog ⟨frame, heap⟩
    = .ok .next ⟨{ frame with operands := value :: frame.operands, position }, heap⟩

namespace Compile

variable (catalog : Catalog) {frame : Frame} {code whole : MarkedCode}
  (stands : code.StandsIn whole 0 frame.position)
  (holds : ∀ position instruction,
    (position, instruction) ∈ Instruction.place 0 whole.instructions ->
      frame.method.chunk.Holds position instruction.bytes)

include stands holds

private theorem pushes_constant {constant : Constant}
    (loads : Emit.Loads frame.method.pool constant code) :
    ∃ stored, (stored = constant ∨ stored.BothZero constant)
      ∧ ∀ value, stored.value? = some value ->
        frame.PushesTo catalog value (frame.position + code.size) := by
  rcases loads with ⟨index, ⟨stored, found, sameKey⟩, rfl⟩ | ⟨index, ⟨stored, found, sameKey⟩, rfl⟩
  · refine ⟨stored, (Constant.key_eq_iff _ _).mp sameKey, fun value isValue heap => ?_⟩
    exact Execute.instruction_constant (holds _ _ stands.mem_place) found isValue
  · refine ⟨stored, (Constant.key_eq_iff _ _).mp sameKey, fun value isValue heap => ?_⟩
    exact Execute.instruction_constantWide (holds _ _ stands.mem_place) found isValue

/-- The code of a literal pushes what it should.  The cases are the kinds of
literals; only the two floating-point kinds can load another constant. -/
private theorem pushes_literal {literal : Literal} (loads : literal.Loads frame.method.pool code) :
    ∃ value, literal.Pushes value
      ∧ frame.PushesTo catalog value (frame.position + code.size) := by
  cases literal with
  | null =>
    cases loads
    exact ⟨.null, .same rfl, fun heap => Execute.instruction_push rfl (holds _ _ stands.mem_place)⟩
  | bool truth =>
    cases loads
    refine ⟨.bool truth, .same rfl, fun heap => ?_⟩
    cases truth <;> exact Execute.instruction_push rfl (holds _ _ stands.mem_place)
  | float =>
    obtain ⟨stored, rfl | ⟨storedZero, isZero⟩, pushes⟩ := pushes_constant catalog stands holds loads
    · exact ⟨_, .same rfl, pushes _ rfl⟩
    · exact ⟨_, .floatZero isZero storedZero, pushes _ rfl⟩
  | double =>
    obtain ⟨stored, rfl | _ | ⟨storedZero, isZero⟩, pushes⟩ := pushes_constant catalog stands holds loads
    · exact ⟨_, .same rfl, pushes _ rfl⟩
    · exact ⟨_, .doubleZero isZero storedZero, pushes _ rfl⟩
  | char | decimal => exact loads.elim
  | _ =>
    obtain ⟨_, rfl | zeros, pushes⟩ := pushes_constant catalog stands holds loads
    · exact ⟨_, .same rfl, pushes _ rfl⟩
    · cases zeros

end Compile

/-- In a method that was compiled from a body, the code of every literal pushes
what it should, whatever other literals the body has. -/
structure CompiledMethod.LoadsLiterals (source : Source) (catalog : Catalog)
    (method : CompiledMethod) (origin : MethodOrigin) : Prop where
  body : source.HasBody origin.symbol origin.operation
  encodes : method.Encodes origin.surroundings origin.catalog origin.symbol origin.operation
    origin.finished origin.code
  literals : ∀ (frame : Frame) (use : ValueUse) (info : Info) (part : MarkedCode),
    frame.method = method ->
    (frame.position, .expression use (.literal info), part) ∈ origin.code.parts 0 ->
    ∃ literal value size, info.literal = some literal ∧ literal.Pushes value
        ∧ frame.PushesTo catalog value (frame.position + size)
        ∧ (use = .kept -> size = part.size)

private theorem Compile.TranslatesPart.literal {outer : Surroundings} {origin : Catalog}
    {finished : Body} {use : ValueUse} {info : Info} {part whole : MarkedCode} {start : Nat}
    (translated : TranslatesPart outer origin finished (.expression use (.literal info)) part)
    (stands : part.StandsIn whole 0 start) :
    ∃ literal code, info.literal = some literal
      ∧ literal.Loads finished.emitter.pool code ∧ code.StandsIn whole 0 start
      ∧ (use = .kept -> code = part) := by
  rcases translated with ⟨depth, low, translates⟩
  cases translates with
  | kept shape =>
    cases shape with
    | literal isLiteral loads => exact ⟨_, _, isLiteral, loads, stands, fun _ => rfl⟩
  | dropped shape =>
    cases shape with
    | literal isLiteral loads => exact ⟨_, _, isLiteral, loads, stands.first, nofun⟩
  | droppedNothing shape =>
    cases shape with
    | literal isLiteral loads => exact ⟨_, _, isLiteral, loads, stands, nofun⟩

theorem CompiledMethod.Encodes.loadsLiterals {source : Source} {method : CompiledMethod}
    (catalog : Catalog) (origin : MethodOrigin)
    (body : source.HasBody origin.symbol origin.operation)
    (encodes : method.Encodes origin.surroundings origin.catalog origin.symbol origin.operation
      origin.finished origin.code) : method.LoadsLiterals source catalog origin where
  body
  encodes
  literals := by
    rintro frame use info part rfl member
    obtain ⟨literal, code, isLiteral, loads, stands, whole⟩ :=
      (encodes.translates.eachPart.of_mem member).literal (.of_part member)
    rw [← encodes.pool] at loads
    have held : frame.method.chunk.Holds 0 (origin.code.instructions.flatMap Instruction.bytes) :=
      frame.method.chunk.holds_of_values_eq [] _ [] (encodes.values.trans (List.append_nil _).symm)
    obtain ⟨value, pushes, runs⟩ := Compile.pushes_literal catalog stands
      (Instruction.holds_place _ held) loads
    exact ⟨literal, value, code.size, isLiteral, pushes, runs, fun kept => by rw [whole kept]⟩

/-- After any additions to a pool, as many as there are indices, an addition finds
the first constant with its key, which is the constant itself or, if it is a
floating-point zero, a zero of its kind.  So in everything that a declaration compiles to, the code of a literal
pushes its value, or a zero in the place of a zero. -/
theorem Make.declaration_loadsLiterals {source : Source} {id : SyntaxId}
    {before after : Workspace} {function : CompiledFunction} (coherent : before.catalog.Coherent)
    (compiles : Make.declaration source id before = .ok function after) (catalog : Catalog) :
    (∀ constants : List Constant, (ConstantPool.ofList constants).size < UInt32.size ->
      ∀ constant, ∃ stored,
        ((ConstantPool.ofList constants).add constant).2.get?
            ((ConstantPool.ofList constants).add constant).1.toNat = some stored
          ∧ (constants ++ [constant]).find? (·.key = constant.key) = some stored
          ∧ (stored = constant ∨ stored.BothZero constant))
      ∧ function.method.Throughout fun method =>
        ∃ origin, method.LoadsLiterals source catalog origin := by
  refine ⟨ConstantPool.get?_add_ofList, ?_⟩
  refine Make.throughout_declaration (fun body _ _ encodes => ?_) coherent compiles (.refl _)
  exact ⟨_, CompiledMethod.Encodes.loadsLiterals catalog ⟨_, _, _, _, _, _⟩ body encodes⟩

/-- The literal of the looping method is loaded as it is, and negative zero after
zero is found as zero. -/
theorem spin_loadsLiterals : Catalog.build [] = .ok Spin.registry
    ∧ ∃ function after,
      Make.declaration Spin.source ⟨1⟩ { catalog := Spin.registry } = .ok function after
      ∧ (function.method.Throughout fun method =>
        ∃ origin, method.LoadsLiterals Spin.source Spin.registry origin)
      ∧ ((ConstantPool.ofList [.double 0]).add (.double (-0))).2.get?
          ((ConstantPool.ofList [.double 0]).add (.double (-0))).1.toNat = some (.double 0)
      ∧ (-0 : Float).toBits ≠ (0 : Float).toBits := by
  rcases Spin.declaration_registry with ⟨function, compiles⟩
  obtain ⟨finds, loads⟩ := Make.declaration_loadsLiterals Spin.coherent_registry compiles
    Spin.registry
  have few : (ConstantPool.ofList [.double 0]).size < UInt32.size := by
    simp [ConstantPool.ofList, ConstantPool.add, ConstantPool.size, UInt32.size]
  obtain ⟨stored, found, first, _⟩ := finds [.double 0] few (.double (-0))
  have isFirst : stored = .double 0 := Option.some.inj (first.symm.trans rfl)
  exact ⟨Spin.isBuilt_registry, function, _, compiles, loads, isFirst ▸ found, by decide⟩

end OpMachine
