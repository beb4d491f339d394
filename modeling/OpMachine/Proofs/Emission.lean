import OpMachine.Proofs.CompilerSteps

namespace OpMachine

/-!
# Emission of structured code

Compiling a part of a body appends bytes to its chunk, may add constants,
slots, anonymous functions and called methods, and may let the catalog grow.
This module says so once: `Compile.Emits` holds of a computation that appends
the bytes of structured code and only extends everything else.  The three
patterns in which jumps are written and patched each have a rule, so nothing
after this module looks at a placeholder again.

What is known about the appended code is stated about the *finished* body, the
one all of whose additions have been made.  Constants, slots and called methods
keep their positions, hence a fact about them survives every later addition.
-/

theorem EStateM.ok_of_bind {ε σ α β : Type} {action : EStateM ε σ α}
    {next : α -> EStateM ε σ β} {before after : σ} {result : β}
    (runs : (action >>= next) before = .ok result after) :
    ∃ value middle,
      action before = .ok value middle ∧ next value middle = .ok result after := by
  change (EStateM.bind action next) before = .ok result after at runs
  unfold EStateM.bind at runs
  cases first : action before with
  | error => rw [first] at runs; cases runs
  | ok value middle => rw [first] at runs; exact ⟨value, middle, rfl, runs⟩

export EStateM (ok_of_bind)

/-! ## Constant pools -/

/-- Whether the key of a constant determines it.  For floating-point numbers it
does not: the two zeros have one key. -/
def Constant.isExact : Constant -> Bool
  | .float _ | .double _ => false
  | _ => true

namespace ConstantPool

variable (pool : ConstantPool)

/-- Every index leads to a constant with the key it was stored under. -/
def Located : Prop :=
  ∀ (key : ConstantKey) (index : UInt32), pool.positions[key]? = some index ->
    ∃ constant, pool.get? index.toNat = some constant ∧ constant.key = key

/-- A pool that code was emitted with: all indices fit an operand of two bytes. -/
structure Sound : Prop where
  located : pool.Located
  few : pool.size ≤ 65536

/-- A later state of a pool, in which every constant has kept its index. -/
def Extends (before after : ConstantPool) : Prop :=
  ∀ index constant, before.get? index = some constant ->
    after.get? index = some constant

/-- A pool has at an index a constant with the key of the given one. -/
def Has (index : Nat) (constant : Constant) : Prop :=
  ∃ stored, pool.get? index = some stored ∧ stored.key = constant.key

theorem Extends.refl : pool.Extends pool := fun _ _ found => found

theorem Extends.trans {first second third : ConstantPool} (earlier : first.Extends second)
    (later : second.Extends third) : first.Extends third :=
  fun index constant found => later index constant (earlier index constant found)

variable {index : Nat} {pool : ConstantPool}

theorem Has.exact {pool : ConstantPool} {index : Nat} (present : pool.Has index constant)
    (exact : constant.isExact = true) : pool.get? index = some constant := by
  obtain ⟨stored, found, sameKey⟩ := present
  have same : stored = constant := by
    cases constant with
    | float | double => cases exact
    | _ =>
      cases stored <;> cases sameKey
      rfl
  rw [found, same]

theorem Has.hash {hash : TypeHash}
    (present : pool.Has index (.hash hash)) : pool.get? index = some (.hash hash) :=
  present.exact rfl

theorem located_empty : Located {} := by
  intro key index found
  rw [Std.HashMap.getElem?_empty] at found
  cases found

theorem sound_empty : Sound {} := ⟨located_empty, Nat.zero_le _⟩

theorem extends_add (pool : ConstantPool) (constant : Constant) :
    pool.Extends (pool.add constant).2 := by
  unfold add
  split
  · exact .refl pool
  · intro index stored found
    have bound : index < pool.constants.size := (Array.getElem?_eq_some_iff.mp found).1
    exact (Array.getElem?_push_lt bound).trans ((Array.getElem?_eq_getElem bound).symm.trans found)

section

variable (few : pool.size < UInt32.size) (located : pool.Located)

include few

theorem toNat_size : pool.size.toUInt32.toNat = pool.size := UInt32.toNat_ofNat_of_lt few

include located

theorem located_add (constant : Constant) : (pool.add constant).2.Located := by
  intro key index found
  have kept := pool.extends_add constant
  unfold add at found kept ⊢
  split at found
  · exact located key index found
  · rename_i absent
    rw [absent] at kept
    rcases inserted_or_found found with ⟨same, rfl⟩ | earlier
    · refine ⟨constant, ?_, same⟩
      rw [toNat_size few]
      exact Array.getElem?_push_size
    · obtain ⟨stored, storedAt, sameKey⟩ := located key index earlier
      exact ⟨stored, kept _ stored storedAt, sameKey⟩

theorem has_add (constant : Constant) :
    (pool.add constant).2.Has (pool.add constant).1.toNat constant := by
  unfold add
  split
  · rename_i index found
    exact located constant.key index found
  · refine ⟨constant, ?_, rfl⟩
    rw [toNat_size few]
    exact Array.getElem?_push_size

end

theorem Sound.size_lt (sound : pool.Sound) : pool.size < UInt32.size :=
  Nat.lt_of_le_of_lt sound.few (by decide)

/-- A pool stays small as long as the indices that are handed out are small. -/
theorem sound_add (sound : pool.Sound) {constant : Constant}
    (small : (pool.add constant).1 < 65536) : (pool.add constant).2.Sound := by
  refine ⟨located_add sound.size_lt sound.located constant, ?_⟩
  unfold add at small ⊢
  split
  · exact sound.few
  · rename_i absent
    rw [absent, UInt32.lt_iff_toNat_lt, toNat_size sound.size_lt] at small
    exact Nat.le_trans (Nat.le_of_eq (Array.size_push _)) small

end ConstantPool

/-! ## Emitted instructions -/

namespace Chunk

variable (chunk : Chunk)

/-- Bytes appended to a chunk, all for one line. -/
def write (bytes : List UInt8) (line : UInt32) : Chunk :=
  bytes.foldl (·.writeByte · line) chunk

theorem toList_write (bytes : List UInt8) (line : UInt32) :
    (chunk.write bytes line).bytes.toList = chunk.bytes.toList ++ bytes.map (⟨·, line⟩) := by
  induction bytes generalizing chunk with
  | nil => exact (List.append_nil _).symm
  | cons byte rest ih =>
    refine (ih (chunk.writeByte byte line)).trans ?_
    rw [writeByte, Array.toList_push, List.append_assoc]
    rfl

theorem values_write (bytes : List UInt8) (line : UInt32) :
    (chunk.write bytes line).values = chunk.values ++ bytes := by
  rw [values, toList_write, List.map_append, List.map_map, values]
  exact congrArg _ (List.map_id bytes)

theorem values_setByte (offset : Nat) (value : UInt8) :
    (chunk.setByte offset value).values = chunk.values.set offset value := by
  apply List.ext_getElem?
  intro index
  rw [← byte?_eq, List.getElem?_set', ← byte?_eq, byte?, byte?, setByte, Array.getElem?_modify]
  by_cases same : offset = index
  · rw [if_pos same, if_pos same]
    cases chunk.bytes[index]? <;> rfl
  · rw [if_neg same, if_neg same]

theorem values_patchWord {chunk : Chunk} (split : chunk.values = before ++ ([high, low] ++ after))
    (value : UInt16) :
    (chunk.patchWord before.length value).values
      = before ++ (Instruction.wordBytes value ++ after) := by
  rw [patchWord, values_setByte, values_setByte, split]
  rw [List.set_append_right _ _ .refl, List.set_append_right _ _ (Nat.le_add_right _ _)]
  rw [Nat.sub_self, Nat.add_sub_cancel_left]
  rfl

end Chunk

namespace Emit

variable {Mark α : Type}

/-- A computation appends the bytes of code for the current line, unless
something is too large.  The code fits under a condition, and what is said about
it may use the pool in any of its later states. -/
structure Writes (action : Emit α) (plain : Prop)
    (Result : α -> ConstantPool -> Code Mark -> Prop) : Prop where
  ordinary : action.IsOrdinary
  run : ∀ before value after, before.pool.Sound -> action before = .ok value after ->
    after.pool.Sound ∧ before.pool.Extends after.pool ∧ after.line = before.line
      ∧ ∃ code, after.chunk = before.chunk.write code.bytes before.line
        ∧ (plain -> code.Fits) ∧ ∀ later, after.pool.Extends later -> Result value later code

theorem Writes.single (instruction : Instruction)
    (run : ∀ before, action before
      = .ok () { before with chunk := before.chunk.write instruction.bytes before.line }) :
    Writes action (instruction.opcode.isJump = false) fun _ _ (code : Code Mark) =>
      code = .single instruction := by
  refine ⟨.of_ok fun before => ⟨_, _, run before⟩, ?_⟩
  intro before value after sound runs
  rw [run before] at runs
  cases runs
  refine ⟨sound, .refl _, rfl, .single instruction, ?_, id, fun _ _ => rfl⟩
  rw [Code.bytes_single]

theorem Writes.mono (writes : Writes action plain Stronger) (isPlain : simple -> plain)
    (implies : ∀ value pool code, Stronger value pool code -> Weaker value pool code) :
    Writes action simple Weaker := by
  refine ⟨writes.ordinary, fun before value after sound runs => ?_⟩
  obtain ⟨afterSound, extended, line, code, bytes, fits, result⟩ :=
    writes.run before value after sound runs
  exact ⟨afterSound, extended, line, code, bytes, fun simple => fits (isPlain simple),
    fun later extending => implies _ _ _ (result later extending)⟩

variable (operation : Opcode)

theorem Writes.opcode (complete : operation.operandSize = 0) :
    Writes (opcode operation) (operation.isJump = false) fun _ _ (code : Code Mark) =>
      code = .single (.plain operation complete) :=
  .single (.plain operation complete) fun _ => rfl

theorem Writes.withByte (operand : UInt8) (complete : operation.operandSize = 1) :
    Writes (withByte operation operand) (operation.isJump = false) fun _ _ (code : Code Mark) =>
      code = .single (.withByte operation operand complete) :=
  .single (.withByte operation operand complete) fun _ => rfl

theorem Writes.withWord (operand : UInt16) (complete : operation.operandSize = 2) :
    Writes (withWord operation operand) (operation.isJump = false) fun _ _ (code : Code Mark) =>
      code = .single (.withWord operation operand complete) :=
  .single (.withWord operation operand complete) fun _ => rfl

theorem Writes.callUnit (callee count : UInt8) :
    Writes (callUnit callee count) True fun _ _ (code : Code Mark) =>
      code = .single (.callUnit callee count) :=
  .mono (.single _ fun _ => rfl) (fun _ => rfl) fun _ _ _ single => single

/-- Interning leaves the code alone and gives the index of a constant with the
key of the interned one. -/
theorem intern_ok {constant : Constant} {before after : Emitter} {index : UInt16}
    (sound : before.pool.Sound) (runs : intern constant before = .ok index after) :
    after.pool.Sound ∧ before.pool.Extends after.pool ∧ after.pool.Has index.toNat constant
      ∧ after.chunk = before.chunk ∧ after.line = before.line := by
  obtain ⟨found, interned, added, rest⟩ := ok_of_bind runs
  have shape : EStateM.Result.ok (before.pool.add constant).1
      (⟨before.chunk, (before.pool.add constant).2, before.line⟩ : Emitter)
        = .ok found interned := added
  injection shape with sameIndex sameEmitter
  subst sameIndex sameEmitter
  by_cases small : (before.pool.add constant).1 < 65536
  · rw [if_pos small] at rest
    cases rest
    refine ⟨ConstantPool.sound_add sound small, before.pool.extends_add constant, ?_, rfl, rfl⟩
    have bound : (before.pool.add constant).1.toNat < 2 ^ 16 := UInt32.lt_iff_toNat_lt.mp small
    rw [UInt32.toNat_toUInt16, Nat.mod_eq_of_lt bound]
    exact ConstantPool.has_add sound.size_lt sound.located constant
  · rw [if_neg small] at rest
    cases rest

/-- Code that loads a constant: the short form for a small index and the wide
form otherwise. -/
def Loads (pool : ConstantPool) (constant : Constant) (code : Code Mark) : Prop :=
  (∃ index : UInt8, pool.Has index.toNat constant
    ∧ code = .single (.withByte .constant index rfl))
  ∨ ∃ index : UInt16, pool.Has index.toNat constant
    ∧ code = .single (.withWord .constantWide index rfl)

theorem Writes.intern {constant : Constant} {next : UInt16 -> Emit α}
    {Result : α -> ConstantPool -> Code Mark -> Prop}
    (rest : ∀ index, Writes (next index) plain fun value pool code =>
      pool.Has index.toNat constant -> Result value pool code) :
    Writes (intern constant >>= next) plain Result := by
  refine ⟨.bind (IsOrdinary.intern constant) fun index => (rest index).ordinary, ?_⟩
  intro before value after sound runs
  obtain ⟨index, middle, interned, written⟩ := ok_of_bind runs
  obtain ⟨middleSound, grown, present, sameChunk, sameLine⟩ := intern_ok sound interned
  obtain ⟨afterSound, extended, line, code, bytes, fits, result⟩ :=
    (rest index).run middle value after middleSound written
  rw [sameChunk, sameLine] at bytes
  refine ⟨afterSound, grown.trans extended, line.trans sameLine, code, bytes, fits,
    fun later extending => ?_⟩
  obtain ⟨stored, found, sameKey⟩ := present
  exact result later extending ⟨stored, extended.trans extending _ _ found, sameKey⟩

theorem Writes.constant (value : Constant) :
    Writes (constant value) True fun _ pool (code : Code Mark) => Loads pool value code := by
  refine .intern fun index => ?_
  split
  · rename_i small
    refine .mono (.withByte .constant index.toUInt8 rfl) (fun _ => rfl) ?_
    intro _ pool code single present
    have narrow : index.toNat < 2 ^ 8 := UInt16.lt_iff_toNat_lt.mp small
    refine .inl ⟨index.toUInt8, ?_, single⟩
    rwa [UInt16.toNat_toUInt8, Nat.mod_eq_of_lt narrow]
  · refine .mono (.withWord .constantWide index rfl) (fun _ => rfl) ?_
    intro _ pool code single present
    exact .inr ⟨index, present, single⟩

theorem Writes.withHash (hash : TypeHash) (complete : operation.operandSize = 2) :
    Writes (withHash operation hash) (operation.isJump = false) fun _ pool (code : Code Mark) =>
      ∃ index : UInt16, pool.Has index.toNat (.hash hash)
        ∧ code = .single (.withWord operation index complete) := by
  refine .intern fun index => .mono (.withWord operation index complete) id ?_
  intro _ pool code single present
  exact ⟨index, present, single⟩

theorem Writes.call (hash : TypeHash) (count : UInt8) (complete : operation.operandSize = 3) :
    Writes (call operation hash count) (operation.isJump = false) fun _ pool (code : Code Mark) =>
      ∃ index : UInt16, pool.Has index.toNat (.hash hash)
        ∧ code = .single (.withCount operation index count complete) := by
  unfold Emit.call Emit.withHash
  rw [bind_assoc]
  refine .intern fun index =>
    .mono (.single (.withCount operation index count complete) fun _ => rfl) id ?_
  intro _ pool code single present
  exact ⟨index, present, single⟩

theorem Writes.new (type constructor : TypeHash) (count : UInt8) :
    Writes (new type constructor count) True fun _ pool (code : Code Mark) =>
      ∃ (typeIndex : UInt16) (constructorIndex : UInt16),
        pool.Has typeIndex.toNat (.hash type) ∧ pool.Has constructorIndex.toNat (.hash constructor)
          ∧ code = .single (.new typeIndex constructorIndex count) := by
  refine .intern fun typeIndex => .intern fun constructorIndex => ?_
  refine .mono (.single (.new typeIndex constructorIndex count) fun _ => rfl) (fun _ => rfl) ?_
  intro _ pool code single second first
  exact ⟨typeIndex, constructorIndex, first, second, single⟩

/-! ## Emitted jumps -/

/-- A forward jump is written with a placeholder, whose offset is the label. -/
theorem jump_eq (before : Emitter) :
    jump operation before = .ok ⟨before.chunk.size + 1⟩ { before with
      chunk := before.chunk.write (operation.toByte :: Instruction.wordBytes 0xFFFF) before.line } := by
  have size : (before.putOpcode operation).chunk.size = before.chunk.size + 1 := Array.size_push _
  rw [← size]
  rfl

/-- A jump is patched if the bytes behind its operand are not too many. -/
theorem patch_eq (label : Label) (before : Emitter) :
    patch label before =
      if before.chunk.size - label.offset - 2 < 65536 then
        .ok () { before with
          chunk := before.chunk.patchWord label.offset
            (before.chunk.size - label.offset - 2).toUInt16 }
      else .error (.unsupportedShape "jump over more than 65535 bytes") before := by
  change (if before.chunk.size - label.offset - 2 < 65536 then _ else _ : Emit Unit) before = _
  split <;> rfl

/-- A backward jump is written with its distance, which counts its operand. -/
theorem loop_eq (target : Nat) (before : Emitter) :
    loop target before =
      if before.chunk.size + 1 - target + 2 < 65536 then
        .ok () { before with
          chunk := before.chunk.write (Code.jumpBack (before.chunk.size + 1 - target + 2)).bytes
            before.line }
      else .error (.unsupportedShape "loop over more than 65535 bytes")
        (before.putOpcode .loop) := by
  have size : (before.putOpcode .loop).chunk.size = before.chunk.size + 1 := Array.size_push _
  rw [← size]
  change (if (before.putOpcode .loop).chunk.size - target + 2 < 65536 then _ else _ : Emit Unit)
    (before.putOpcode .loop) = _
  split <;> rfl

end Emit
end OpMachine
