import OpMachine.Proofs.ScalarExecution
import OpMachine.Proofs.WellFormed

namespace OpMachine

/-!
# Reading emitted code back

An emitter is asked for instructions in any order, jumps are patched when their
targets are reached, and lines are set in between.  As long as nothing fails,
the finished chunk is read back as what was asked for: the operations in order,
their operands, the lines of their bytes and the targets of their jumps.  The
listing of a chunk and the machine that runs it agree on all of that.
-/

namespace Chunk

variable {chunk : Chunk} {offset index : Nat} {line other : UInt32} {bytes : List UInt8}

theorem line?_write (found : chunk.line? offset = some line) :
    (chunk.write bytes other).line? offset = some line := by
  rw [line?, ← Array.getElem?_toList] at found ⊢
  have inside : offset < chunk.bytes.toList.length := by
    by_contra outside
    rw [List.getElem?_eq_none (Nat.le_of_not_lt outside)] at found
    cases found
  rw [toList_write, List.getElem?_append_left inside, found]

theorem line?_written (inside : index < bytes.length) :
    (chunk.write bytes line).line? (chunk.size + index) = some line := by
  rw [line?, ← Array.getElem?_toList, toList_write, size, ← Array.length_toList,
    List.getElem?_append_right (Nat.le_add_right _ _), Nat.add_sub_cancel_left,
    List.getElem?_map, List.getElem?_eq_getElem inside]
  rfl

theorem line?_setByte (chunk : Chunk) (offset index : Nat) (value : UInt8) :
    (chunk.setByte offset value).line? index = chunk.line? index := by
  rw [line?, setByte, Array.getElem?_modify]
  split
  · cases found : chunk.bytes[index]? <;> simp [line?, found]
  · rfl

theorem line?_patchWord (chunk : Chunk) (offset index : Nat) (value : UInt16) :
    (chunk.patchWord offset value).line? index = chunk.line? index :=
  (line?_setByte _ _ _ _).trans (line?_setByte _ _ _ _)

end Chunk

/-! ## What is asked for -/

open Instruction (bytes place totalSize totalSize_cons)

namespace Emit

/-- An instruction whose operands are known when it is emitted. -/
inductive Form where
  | plain (opcode : Opcode) (complete : opcode.operandSize = 0)
  | withByte (opcode : Opcode) (operand : UInt8) (complete : opcode.operandSize = 1)
  | withWord (opcode : Opcode) (operand : UInt16) (complete : opcode.operandSize = 2)
  | constant (value : Constant)
  | withHash (opcode : Opcode) (hash : TypeHash) (complete : opcode.operandSize = 2)
  | call (opcode : Opcode) (hash : TypeHash) (count : UInt8) (complete : opcode.operandSize = 3)
  | callUnit (callee count : UInt8)
  | new (type constructor : TypeHash) (count : UInt8)
  | newArray (element : TypeHash) (rank : UInt8)

namespace Form

def action : Form -> Emit Unit
  | .plain operation _ => opcode operation
  | .withByte operation operand _ => Emit.withByte operation operand
  | .withWord operation operand _ => Emit.withWord operation operand
  | .constant value => Emit.constant value
  | .withHash operation hash _ => Emit.withHash operation hash
  | .call operation hash count _ => Emit.call operation hash count
  | .callUnit callee count => Emit.callUnit callee count
  | .new type constructor count => Emit.new type constructor count
  | .newArray element rank => Emit.newArray element rank

/-- An instruction is what was asked for.  A constant is given by the index of
one with the same key. -/
def Is (pool : ConstantPool) : Form -> Instruction -> Prop
  | .plain operation complete, instruction => instruction = .plain operation complete
  | .withByte operation operand complete, instruction =>
    instruction = .withByte operation operand complete
  | .withWord operation operand complete, instruction =>
    instruction = .withWord operation operand complete
  | .constant value, instruction => Loads pool value (.single instruction : Code Empty)
  | .withHash operation hash complete, instruction => ∃ index : UInt16,
    pool.Has index.toNat (.hash hash) ∧ instruction = .withWord operation index complete
  | .call operation hash count complete, instruction => ∃ index : UInt16,
    pool.Has index.toNat (.hash hash) ∧ instruction = .withCount operation index count complete
  | .callUnit callee count, instruction => instruction = .callUnit callee count
  | .new type constructor count, instruction => ∃ typeIndex constructorIndex : UInt16,
    pool.Has typeIndex.toNat (.hash type) ∧ pool.Has constructorIndex.toNat (.hash constructor)
      ∧ instruction = .new typeIndex constructorIndex count
  | .newArray element rank, instruction => ∃ index : UInt16,
    pool.Has index.toNat (.hash element) ∧ instruction = .withCount .newArray index rank rfl

theorem writes (form : Form) : Writes form.action False fun _ pool (code : Code Empty) =>
    ∃ instruction, code = .single instruction ∧ form.Is pool instruction := by
  cases form with
  | plain operation complete =>
    exact .mono (.opcode operation complete) nofun fun _ _ _ single => ⟨_, single, rfl⟩
  | withByte operation operand complete =>
    exact .mono (.withByte operation operand complete) nofun fun _ _ _ single => ⟨_, single, rfl⟩
  | withWord operation operand complete =>
    exact .mono (.withWord operation operand complete) nofun fun _ _ _ single => ⟨_, single, rfl⟩
  | constant value =>
    refine .mono (.constant value) nofun fun _ _ _ loads => ?_
    rcases loads with ⟨index, present, rfl⟩ | ⟨index, present, rfl⟩
    · exact ⟨_, rfl, .inl ⟨index, present, rfl⟩⟩
    · exact ⟨_, rfl, .inr ⟨index, present, rfl⟩⟩
  | withHash operation hash complete =>
    refine .mono (.withHash operation hash complete) nofun ?_
    exact fun _ _ _ ⟨index, present, single⟩ => ⟨_, single, index, present, rfl⟩
  | call operation hash count complete =>
    refine .mono (.call operation hash count complete) nofun ?_
    exact fun _ _ _ ⟨index, present, single⟩ => ⟨_, single, index, present, rfl⟩
  | callUnit callee count =>
    exact .mono (.callUnit callee count) nofun fun _ _ _ single => ⟨_, single, rfl⟩
  | new type constructor count =>
    refine .mono (.new type constructor count) nofun ?_
    exact fun _ _ _ ⟨_, _, first, second, single⟩ => ⟨_, single, _, _, first, second, rfl⟩
  | newArray element rank =>
    refine .mono (.call .newArray element rank rfl) nofun ?_
    exact fun _ _ _ ⟨index, present, single⟩ => ⟨_, single, index, present, rfl⟩

end Form

inductive Emission where
  | known (form : Form)
  /-- A forward jump with its label and, once it is patched, its target. -/
  | ahead (opcode : Opcode) (complete : opcode.operandSize = 2) (label : Label)
      (target : Option Nat)
  | back (target : Nat)

/-- The instruction at an offset is what was asked for. -/
def Emission.Is (pool : ConstantPool) (start : Nat) : Emission -> Instruction -> Prop
  | .known form, instruction => form.Is pool instruction
  | .ahead opcode complete label target, instruction => label.offset = start + 1
    ∧ ∃ word, instruction = .withWord opcode word complete
      ∧ ∀ place, target = some place -> start + 3 + word.toNat = place
  | .back target, instruction => ∃ word complete,
    instruction = .withWord .loop word complete ∧ target + word.toNat = start + 3

/-- Where a jump is to lead. -/
def Emission.target? : Emission -> Option Nat
  | .ahead .jump _ _ target | .ahead .jumpIfFalse _ _ target => target
  | .back target => some target
  | _ => none

/-- Calls none of which has failed: the line that was set last, the emitter, and
all that was asked for with its lines. -/
inductive Emitted : UInt32 -> Emitter -> List (Emission × UInt32) -> Prop
  | none : Emitted 0 {} []
  | line (earlier : Emitted line emitter log) (runs : setLine value emitter = .ok () after) :
      Emitted (if value = 0 then line else value) after log
  | form (earlier : Emitted line emitter log) (form : Form)
      (runs : form.action emitter = .ok () after) :
      Emitted line after (log ++ [(.known form, line)])
  | jump (earlier : Emitted line emitter log) (complete : operation.operandSize = 2)
      (runs : jump operation emitter = .ok label after) :
      Emitted line after (log ++ [(.ahead operation complete label none, line)])
  | patch (earlier : Emitted line emitter
        (front ++ (.ahead operation complete label target, lineOfJump) :: back))
      (runs : patch label emitter = .ok () after) :
      Emitted line after
        (front ++ (.ahead operation complete label (some emitter.chunk.size), lineOfJump) :: back)
  | loop (earlier : Emitted line emitter log) (inside : target ≤ emitter.chunk.size)
      (runs : loop target emitter = .ok () after) :
      Emitted line after (log ++ [(.back target, line)])

/-! ## Code in step with what is asked for -/

variable {α : Type} {Property Other : Nat -> α -> Instruction -> Prop} {start : Nat}
  {parts : List α} {code : List Instruction}

/-- Instructions that stand from an offset on and belong to the parts of a list,
each with a property. -/
def Along (Property : Nat -> α -> Instruction -> Prop) : Nat -> List α -> List Instruction -> Prop
  | _, [], [] => True
  | start, part :: parts, instruction :: code =>
    Property start part instruction ∧ Along Property (start + instruction.size) parts code
  | _, _, _ => False

theorem Along.mono (along : Along Property start parts code)
    (implies : ∀ position part instruction, (position, instruction) ∈ place start code ->
        Property position part instruction -> Other position part instruction) :
    Along Other start parts code := by
  induction parts generalizing start code with
  | nil => cases code <;> exact along
  | cons part parts ih =>
    cases code with
    | nil => exact along
    | cons instruction code =>
      exact ⟨implies _ _ _ (.head _) along.1,
        ih along.2 fun _ _ _ member => implies _ _ _ (.tail _ member)⟩

theorem along_append {front back : List α} : Along Property start (front ++ back) code ↔
    ∃ first second, code = first ++ second ∧ Along Property start front first
      ∧ Along Property (start + totalSize first) back second := by
  induction front generalizing start code with
  | nil =>
    refine ⟨fun along => ⟨[], code, rfl, trivial, along⟩, ?_⟩
    rintro ⟨first, second, rfl, inFront, inBack⟩
    cases first with
    | nil => exact inBack
    | cons => exact inFront.elim
  | cons part front ih =>
    constructor
    · intro along
      cases code with
      | nil => exact along.elim
      | cons instruction code =>
        obtain ⟨first, second, rfl, inFront, inBack⟩ := ih.mp along.2
        refine ⟨instruction :: first, second, rfl, ⟨along.1, inFront⟩, ?_⟩
        rw [totalSize_cons, ← Nat.add_assoc]
        exact inBack
    · rintro ⟨first, second, rfl, inFront, inBack⟩
      cases first with
      | nil => exact inFront.elim
      | cons instruction first =>
        rw [totalSize_cons, ← Nat.add_assoc] at inBack
        exact ⟨inFront.1, ih.mpr ⟨first, second, rfl, inFront.2, inBack⟩⟩

/-! ## The invariant -/

/-- What is known of a part and of the lines of its instruction. -/
def Known (emitter : Emitter) (start : Nat) (part : Emission × UInt32) (instruction : Instruction) :
    Prop :=
  (∀ later, emitter.pool.Extends later -> part.1.Is later start instruction)
    ∧ ∀ index, index < instruction.size ->
      emitter.chunk.line? (start + index) = some part.2

/-- A chunk holds instructions in step with what was asked for. -/
structure Laid (line : UInt32) (emitter : Emitter) (log : List (Emission × UInt32))
    (code : List Instruction) : Prop where
  sound : emitter.pool.Sound
  line : emitter.line = line
  values : emitter.chunk.values = code.flatMap bytes
  along : Along (Known emitter) 0 log code

variable {line : UInt32} {emitter after : Emitter} {log : List (Emission × UInt32)}

theorem Laid.size (laid : Laid line emitter log code) :
    emitter.chunk.size = 0 + totalSize code := by
  rw [← Chunk.length_values, laid.values, Nat.zero_add]
  rfl

theorem Laid.append (laid : Laid line emitter log code) (instruction : Instruction)
    (sound : after.pool.Sound) (extended : emitter.pool.Extends after.pool)
    (sameLine : after.line = emitter.line)
    (written : after.chunk = emitter.chunk.write instruction.bytes emitter.line)
    (is : ∀ later, after.pool.Extends later ->
      emission.Is later emitter.chunk.size instruction) :
    Laid line after (log ++ [(emission, line)]) (code ++ [instruction]) := by
  refine ⟨sound, sameLine.trans laid.line, ?_, along_append.mpr ⟨code, [instruction], rfl, ?_, ?_⟩⟩
  · rw [written, Chunk.values_write, laid.values, List.flatMap_append, List.flatMap_singleton]
  · refine laid.along.mono fun position part instruction _ known =>
      ⟨fun later extending => known.1 later (extended.trans extending), fun index inside => ?_⟩
    rw [written]
    exact Chunk.line?_write (known.2 index inside)
  · refine ⟨⟨laid.size ▸ is, fun index inside => ?_⟩, trivial⟩
    rw [written, ← laid.size, ← laid.line]
    exact Chunk.line?_written (instruction.length_bytes.symm ▸ inside)

theorem Known.patched (known : Known emitter start part instruction) (offset : Nat)
    (value : UInt16) : Known { emitter with chunk := emitter.chunk.patchWord offset value }
      start part instruction :=
  ⟨known.1, fun index inside =>
    (emitter.chunk.line?_patchWord offset _ value).trans (known.2 index inside)⟩

/-- A forward jump stands where its label says, with the rest of the code behind
it. -/
theorem Laid.ahead (laid : Laid line emitter
      (front ++ (.ahead operation complete label target, lineOfJump) :: back) code) :
    ∃ first word rest, code = first ++ .withWord operation word complete :: rest
      ∧ label.offset = Instruction.totalSize first + 1
      ∧ emitter.chunk.size = Instruction.totalSize first + 3 + Instruction.totalSize rest
      ∧ Along (Known emitter) 0 front first
      ∧ Known emitter (Instruction.totalSize first)
        (.ahead operation complete label target, lineOfJump) (.withWord operation word complete)
      ∧ Along (Known emitter) (Instruction.totalSize first + 3) back rest := by
  obtain ⟨first, second, rfl, inFront, inBack⟩ := along_append.mp laid.along
  cases second with
  | nil => exact inBack.elim
  | cons instruction rest =>
    rw [Nat.zero_add] at inBack
    obtain ⟨isLabel, word, rfl, _⟩ := inBack.1.1 _ (.refl _)
    have length : (Instruction.withWord operation word complete).size = 3 :=
      congrArg (1 + ·) complete
    have size := laid.size
    rw [Instruction.totalSize_append, Instruction.totalSize_cons, length] at size
    exact ⟨first, word, rest, rfl, isLabel, by omega, inFront, inBack.1, length ▸ inBack.2⟩

theorem Laid.patch (laid : Laid line emitter
      (front ++ (.ahead operation complete label target, lineOfJump) :: back) code)
    (runs : patch label emitter = .ok () after) : ∃ code, Laid line after
      (front ++ (.ahead operation complete label (some emitter.chunk.size), lineOfJump) :: back)
      code := by
  obtain ⟨first, word, rest, rfl, isLabel, size, inFront, known, inBack⟩ := laid.ahead
  have distance : emitter.chunk.size - label.offset - 2 = Instruction.totalSize rest := by omega
  rw [patch_eq, distance] at runs
  split at runs
  · next small =>
    cases runs
    have isWord : (Instruction.totalSize rest).toUInt16.toNat = _ := UInt16.toNat_ofNat_of_lt small
    have length (word) : (Instruction.withWord operation word complete).size = 3 :=
      congrArg (1 + ·) complete
    refine ⟨first ++ .withWord operation (Instruction.totalSize rest).toUInt16 complete :: rest,
      laid.sound, laid.line, ?_, along_append.mpr ⟨first, _, rfl, ?_, ⟨?_, ?_⟩, ?_⟩⟩
    · have split : emitter.chunk.values = (first.flatMap Instruction.bytes ++ [operation.toByte])
          ++ (Instruction.wordBytes word ++ rest.flatMap Instruction.bytes) := by
        rw [laid.values, List.flatMap_append, List.append_assoc]
        rfl
      have isLength : label.offset
          = (first.flatMap Instruction.bytes ++ [operation.toByte]).length := by
        rw [isLabel, List.length_append]
        rfl
      rw [isLength, Chunk.values_patchWord split, List.flatMap_append, List.append_assoc]
      rfl
    · exact inFront.mono fun _ _ _ _ known => known.patched _ _
    · refine fun _ _ => ⟨by omega, _, rfl, fun place isPlace => ?_⟩
      cases isPlace
      omega
    · intro index inside
      rw [Nat.zero_add]
      exact (known.patched _ _).2 index (length word ▸ length _ ▸ inside)
    · rw [length, Nat.zero_add]
      exact inBack.mono fun _ _ _ _ known => known.patched _ _
  · cases runs

theorem Emitted.laid (emitted : Emitted line emitter log) :
    ∃ code, Laid line emitter log code := by
  induction emitted with
  | none => exact ⟨[], ConstantPool.sound_empty, rfl, rfl, trivial⟩
  | @line _ _ _ value _ _ runs ih =>
    obtain ⟨code, laid⟩ := ih
    cases runs
    refine ⟨code, ?_⟩
    unfold Emitter.atLine
    split
    · exact laid
    · exact ⟨laid.sound, rfl, laid.values, laid.along⟩
  | form _ form runs ih =>
    obtain ⟨code, laid⟩ := ih
    obtain ⟨sound, extended, sameLine, _, written, _, is⟩ := form.writes.run _ _ _ laid.sound runs
    obtain ⟨instruction, rfl, _⟩ := is _ (.refl _)
    rw [Code.bytes_single] at written
    refine ⟨_, laid.append instruction sound extended sameLine written fun later extending => ?_⟩
    obtain ⟨_, same, is⟩ := is later extending
    cases same
    exact is
  | @jump _ _ _ operation _ _ _ complete runs ih =>
    obtain ⟨code, laid⟩ := ih
    cases (jump_eq operation _).symm.trans runs
    exact ⟨_, laid.append (.withWord operation 0xFFFF complete) laid.sound (.refl _) rfl rfl
      fun _ _ => ⟨rfl, _, rfl, nofun⟩⟩
  | patch _ runs ih =>
    obtain ⟨code, laid⟩ := ih
    exact laid.patch runs
  | @loop _ _ _ target _ _ inside runs ih =>
    obtain ⟨code, laid⟩ := ih
    rw [loop_eq] at runs
    split at runs
    · next small =>
      cases runs
      refine ⟨_, laid.append _ laid.sound (.refl _) rfl rfl fun _ _ => ⟨_, rfl, rfl, ?_⟩⟩
      rw [show (_ : Nat).toUInt16.toNat = _ from UInt16.toNat_ofNat_of_lt small]
      omega
    · cases runs

/-! ## Reading back -/

end Emit
end OpMachine
