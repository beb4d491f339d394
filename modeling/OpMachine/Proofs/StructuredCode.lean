import OpMachine.Chunk

namespace OpMachine

/-!
# Structured code

The bytes of a chunk are read here as structured code: single instructions,
code in sequence, and the three ways in which jumps are written.  A two-way
branch, a guarded part and a loop are nodes of their own, so the distances of
their jumps are computed from the sizes of the parts.  Distances are relative,
hence the bytes of a piece of code do not depend on where it stands.

The main definition is `Code.bytes`, and `Chunk.Holds` says that a chunk has
given bytes at a position.  Nothing here says what an instruction does; marks
name the part of a program that a piece of code was made for and leave no byte
behind.
-/

/-! ## Instructions -/

/-- Whether an operation moves the position by its operand. -/
def Opcode.isJump : Opcode -> Bool
  | .jump | .jumpIfFalse | .loop => true
  | _ => false

/-- An instruction with all its operand bytes.  The proof that there are as
many of them as the operation reads is a part of the instruction. -/
structure Instruction where
  opcode : Opcode
  operands : List UInt8
  complete : operands.length = opcode.operandSize

open Chunk

namespace Instruction

def bytes (instruction : Instruction) : List UInt8 :=
  instruction.opcode.toByte :: instruction.operands

def size (instruction : Instruction) : Nat := 1 + instruction.opcode.operandSize

theorem length_bytes (instruction : Instruction) : instruction.bytes.length = instruction.size := by
  rw [bytes, size, List.length_cons, instruction.complete, Nat.add_comm]

theorem size_pos (instruction : Instruction) : 0 < instruction.size :=
  Nat.add_pos_left Nat.one_pos _

/-- The two bytes of a word operand, the more significant one first. -/
def wordBytes (value : UInt16) : List UInt8 := [highByte value, lowByte value]

variable (opcode : Opcode)

def plain (complete : opcode.operandSize = 0) : Instruction :=
  ⟨opcode, [], complete.symm⟩

def withByte (value : UInt8) (complete : opcode.operandSize = 1) : Instruction :=
  ⟨opcode, [value], complete.symm⟩

def withWord (value : UInt16) (complete : opcode.operandSize = 2) : Instruction :=
  ⟨opcode, wordBytes value, complete.symm⟩

/-- An instruction with an operand of two bytes and a count. -/
def withCount (value : UInt16) (count : UInt8) (complete : opcode.operandSize = 3) : Instruction :=
  ⟨opcode, wordBytes value ++ [count], complete.symm⟩

def callUnit (callee count : UInt8) : Instruction := ⟨.callUnit, [callee, count], rfl⟩

def new (type constructor : UInt16) (count : UInt8) : Instruction :=
  ⟨.new, wordBytes type ++ wordBytes constructor ++ [count], rfl⟩

end Instruction

/-! ## Code -/

/-- Code as the compiler lays it out.  `Mark` is whatever a marked part says
about its origin. -/
inductive Code (Mark : Type) where
  | empty
  | single (instruction : Instruction)
  | append (first second : Code Mark)
  /-- The value on the stack decides which of two parts runs. -/
  | branch (whenTrue whenFalse : Code Mark)
  /-- The part runs when the value on the stack says so. -/
  | guarded (whenTrue : Code Mark)
  /-- The body runs as long as the condition leaves a true value. -/
  | loop (condition body : Code Mark)
  | marked (mark : Mark) (part : Code Mark)

namespace Code

variable {Mark : Type}

instance : Append (Code Mark) := ⟨append⟩

def jumpSize : Nat := 3

def size : Code Mark -> Nat
  | .empty => 0
  | .single instruction => instruction.size
  | .append first second => first.size + second.size
  | .branch whenTrue whenFalse => jumpSize + whenTrue.size + jumpSize + whenFalse.size
  | .guarded whenTrue => jumpSize + whenTrue.size
  | .loop condition body => condition.size + jumpSize + body.size + jumpSize
  | .marked _ part => part.size

/-- The jump taken when the value on the stack is false. -/
def jumpIfFalse (distance : Nat) : Instruction := .withWord .jumpIfFalse distance.toUInt16 rfl

def jump (distance : Nat) : Instruction := .withWord .jump distance.toUInt16 rfl

def jumpBack (distance : Nat) : Instruction := .withWord .loop distance.toUInt16 rfl

def instructions : Code Mark -> List Instruction
  | .empty => []
  | .single instruction => [instruction]
  | .append first second => first.instructions ++ second.instructions
  | .branch whenTrue whenFalse =>
    jumpIfFalse (whenTrue.size + jumpSize) :: whenTrue.instructions
      ++ jump whenFalse.size :: whenFalse.instructions
  | .guarded whenTrue => jumpIfFalse whenTrue.size :: whenTrue.instructions
  | .loop condition body =>
    condition.instructions ++ jumpIfFalse (body.size + jumpSize) :: body.instructions
      ++ [jumpBack (condition.size + jumpSize + body.size + jumpSize)]
  | .marked _ part => part.instructions

def bytes (code : Code Mark) : List UInt8 := code.instructions.flatMap Instruction.bytes

/-- Every distance fits the operand of its jump, and jumps occur nowhere but
in the nodes that compute their distances. -/
def Fits : Code Mark -> Prop
  | .empty => True
  | .single instruction => instruction.opcode.isJump = false
  | .append first second => first.Fits ∧ second.Fits
  | .branch whenTrue whenFalse =>
    whenTrue.size + jumpSize < 65536 ∧ whenFalse.size < 65536
      ∧ whenTrue.Fits ∧ whenFalse.Fits
  | .guarded whenTrue => whenTrue.size < 65536 ∧ whenTrue.Fits
  | .loop condition body =>
    condition.size + jumpSize + body.size + jumpSize < 65536 ∧ condition.Fits ∧ body.Fits
  | .marked _ part => part.Fits

@[simp] theorem size_append (first second : Code Mark) :
    (first ++ second).size = first.size + second.size := rfl

@[simp] theorem bytes_append (first second : Code Mark) :
    (first ++ second).bytes = first.bytes ++ second.bytes := List.flatMap_append

@[simp] theorem bytes_single (instruction : Instruction) :
    (single instruction : Code Mark).bytes = instruction.bytes :=
  List.flatMap_singleton _ _

theorem bytes_branch (whenTrue whenFalse : Code Mark) : (branch whenTrue whenFalse).bytes =
      (jumpIfFalse (whenTrue.size + jumpSize)).bytes ++ whenTrue.bytes
        ++ (jump whenFalse.size).bytes ++ whenFalse.bytes := by
  simp only [bytes, instructions, List.flatMap_append, List.flatMap_cons, List.cons_append,
    List.append_assoc]

theorem bytes_guarded (whenTrue : Code Mark) :
    (guarded whenTrue).bytes = (jumpIfFalse whenTrue.size).bytes ++ whenTrue.bytes :=
  List.flatMap_cons

theorem bytes_loop (condition body : Code Mark) : (loop condition body).bytes =
      condition.bytes ++ (jumpIfFalse (body.size + jumpSize)).bytes ++ body.bytes
        ++ (jumpBack (condition.size + jumpSize + body.size + jumpSize)).bytes := by
  simp only [bytes, instructions, List.flatMap_append, List.flatMap_cons, List.flatMap_nil,
    List.append_assoc, List.append_nil]

theorem length_bytes (code : Code Mark) : code.bytes.length = code.size := by
  induction code with
  | empty => rfl
  | single instruction => rw [bytes_single, instruction.length_bytes, size]
  | append first second firstLength secondLength =>
    exact (congrArg List.length (bytes_append first second)).trans (by
      rw [List.length_append, firstLength, secondLength, size])
  | branch _ _ trueLength falseLength =>
    simp only [bytes_branch, List.length_append, trueLength, falseLength, Instruction.length_bytes]
    rfl
  | guarded _ trueLength =>
    rw [bytes_guarded, List.length_append, trueLength]
    rfl
  | loop _ _ conditionLength bodyLength =>
    simp only [bytes_loop, List.length_append, conditionLength, bodyLength,
      Instruction.length_bytes]
    rfl
  | marked _ _ partLength => exact partLength

/-! ### Properties of all instructions -/

section

variable {Property : Instruction -> Prop} {first second : Code Mark}

def Every (Property : Instruction -> Prop) (code : Code Mark) : Prop :=
  ∀ instruction, instruction ∈ code.instructions -> Property instruction

theorem every_empty : (empty : Code Mark).Every Property :=
  nofun

theorem every_single (holds : Property instruction) :
    (single instruction : Code Mark).Every Property := by
  intro other member
  rw [List.mem_singleton.mp member]
  exact holds

theorem every_append :
    (first ++ second).Every Property ↔ first.Every Property ∧ second.Every Property :=
  List.forall_mem_append

theorem Every.append (inFirst : first.Every Property) (inSecond : second.Every Property) :
    (first ++ second).Every Property := every_append.mpr ⟨inFirst, inSecond⟩

/-! What holds of every instruction holds in the parts. -/

theorem Every.left (whole : (first ++ second).Every Property) : first.Every Property :=
  (every_append.mp whole).1

theorem Every.right (whole : (first ++ second).Every Property) : second.Every Property :=
  (every_append.mp whole).2

theorem Every.ofBranch (whole : (branch first second).Every Property) :
    first.Every Property ∧ second.Every Property := by
  refine ⟨fun instruction member => whole instruction ?_, fun instruction member =>
    whole instruction ?_⟩
  · exact List.mem_append_left _ (.tail _ member)
  · exact List.mem_append_right _ (.tail _ member)

theorem Every.ofGuarded (whole : (guarded first).Every Property) : first.Every Property :=
  fun instruction member => whole instruction (.tail _ member)

theorem Every.ofLoop (whole : (loop first second).Every Property) :
    first.Every Property ∧ second.Every Property := by
  refine ⟨fun instruction member => whole instruction ?_, fun instruction member =>
    whole instruction ?_⟩
  · exact List.mem_append_left _ (List.mem_append_left _ member)
  · exact List.mem_append_left _ (List.mem_append_right _ (.tail _ member))

section

variable (jumps : ∀ instruction : Instruction, instruction.opcode.isJump = true ->
  Property instruction)

include jumps

theorem Every.branch (inFirst : first.Every Property) (inSecond : second.Every Property) :
    (branch first second).Every Property := by
  intro instruction member
  simp only [instructions, List.mem_cons, List.mem_append] at member
  rcases member with (rfl | inside) | rfl | behind
  · exact jumps _ rfl
  · exact inFirst instruction inside
  · exact jumps _ rfl
  · exact inSecond instruction behind

theorem Every.guarded (inFirst : first.Every Property) : (guarded first).Every Property := by
  intro instruction member
  rcases List.mem_cons.mp member with rfl | inside
  · exact jumps _ rfl
  · exact inFirst instruction inside

theorem Every.loop (inFirst : first.Every Property) (inSecond : second.Every Property) :
    (loop first second).Every Property := by
  intro instruction member
  simp only [instructions, List.mem_cons, List.mem_append, List.not_mem_nil, or_false] at member
  rcases member with (inside | rfl | behind) | rfl
  · exact inFirst instruction inside
  · exact jumps _ rfl
  · exact inSecond instruction behind
  · exact jumps _ rfl

end

end

end Code

/-! ## Bytes of a chunk -/

open Instruction

namespace Chunk

variable (chunk : Chunk)

/-- The bytes of a chunk without their lines. -/
def values : List UInt8 := chunk.bytes.toList.map (·.value)

theorem length_values : chunk.values.length = chunk.size := by
  rw [values, List.length_map, Array.length_toList, size]

theorem byte?_eq (offset : Nat) : chunk.byte? offset = chunk.values[offset]? := by
  rw [byte?, values, List.getElem?_map, Array.getElem?_toList]

/-- A chunk has the given bytes from an offset on. -/
def Holds (chunk : Chunk) : Nat -> List UInt8 -> Prop
  | _, [] => True
  | offset, byte :: rest => chunk.byte? offset = some byte ∧ chunk.Holds (offset + 1) rest

theorem holds_append (offset : Nat) (first second : List UInt8) :
    chunk.Holds offset (first ++ second)
      ↔ chunk.Holds offset first ∧ chunk.Holds (offset + first.length) second := by
  induction first generalizing offset with
  | nil => simp only [List.nil_append, List.length_nil, Nat.add_zero, Holds, true_and]
  | cons _ _ ih =>
    rw [List.cons_append, Holds, Holds, ih, List.length_cons, and_assoc,
      Nat.add_assoc, Nat.add_comm 1]

theorem holds_of_values_eq (chunk : Chunk) (before bytes after : List UInt8)
    (split : chunk.values = before ++ (bytes ++ after)) : chunk.Holds before.length bytes := by
  induction bytes generalizing before with
  | nil => trivial
  | cons byte _ ih =>
    refine And.intro ?_ ?_
    · rw [byte?_eq, split, List.getElem?_append_right .refl, Nat.sub_self]
      rfl
    · have next := ih (before ++ [byte]) (by
        rw [split, List.append_assoc, List.singleton_append, List.cons_append])
      rwa [List.length_append] at next

theorem joinBytes_highByte_lowByte (value : UInt16) :
    joinBytes (highByte value) (lowByte value) = value := by
  have bound := value.toNat_lt
  have remainder : value.toNat % 256 < 2 ^ 8 := Nat.mod_lt _ (by decide)
  apply UInt16.toNat_inj.mp
  simp only [joinBytes, highByte, lowByte, UInt16.toNat_or, UInt16.toNat_shiftLeft,
    UInt8.toNat_toUInt16, UInt16.toNat_toUInt8, UInt16.toNat_shiftRight]
  rw [show (8 : UInt16).toNat % 16 = 8 from rfl]
  rw [Nat.mod_eq_of_lt (by rw [Nat.shiftLeft_eq]; omega)]
  rw [← Nat.shiftLeft_add_eq_or_of_lt remainder]
  omega

variable {chunk : Chunk} {offset : Nat} {instruction : Instruction}

theorem word?_of_holds (holds : chunk.Holds offset (wordBytes value)) :
    chunk.word? offset = some value := by
  rcases holds with ⟨high, low, _⟩
  unfold word?
  rw [high, low]
  exact congrArg some (joinBytes_highByte_lowByte value)

theorem opcode?_of_holds (holds : chunk.Holds offset instruction.bytes) :
    chunk.opcode? offset = some instruction.opcode := by
  rw [opcode?, holds.1, Option.bind_eq_bind, Option.bind_some, Opcode.ofByte?_toByte]

theorem next_of_holds (holds : chunk.Holds offset instruction.bytes) :
    chunk.next offset = offset + instruction.size := by
  rw [next, opcode?_of_holds holds]
  exact Nat.add_assoc offset 1 instruction.opcode.operandSize

end Chunk

/-! ## Code in a chunk -/

namespace Instruction

/-- Instructions with the offsets they have when the first one stands at an
offset. -/
def place : Nat -> List Instruction -> List (Nat × Instruction)
  | _, [] => []
  | offset, instruction :: rest => (offset, instruction) :: place (offset + instruction.size) rest

def totalSize (instructions : List Instruction) : Nat :=
  (instructions.flatMap bytes).length

theorem totalSize_cons (instruction : Instruction) (rest : List Instruction) :
    totalSize (instruction :: rest) = instruction.size + totalSize rest := by
  rw [totalSize, List.flatMap_cons, List.length_append, length_bytes, totalSize]

theorem place_append (offset : Nat) (first second : List Instruction) :
    place offset (first ++ second)
      = place offset first ++ place (offset + totalSize first) second := by
  induction first generalizing offset with
  | nil => rfl
  | cons _ _ ih =>
    rw [List.cons_append, place, place, ih, List.cons_append, totalSize_cons, Nat.add_assoc]

variable {chunk : Chunk} {offset : Nat}

theorem holds_place (instructions : List Instruction)
    (holds : chunk.Holds offset (instructions.flatMap bytes)) :
    ∀ position instruction, (position, instruction) ∈ place offset instructions ->
      chunk.Holds position instruction.bytes := by
  induction instructions generalizing offset with
  | nil => intro _ _ member; exact nomatch member
  | cons _ _ ih =>
    rw [List.flatMap_cons, holds_append, length_bytes] at holds
    intro position instruction member
    rcases List.mem_cons.mp member with isHead | inTail
    · obtain ⟨rfl, rfl⟩ := Prod.mk.inj isHead
      exact holds.1
    · exact ih holds.2 position instruction inTail

/-- Reading a chunk from the start of instructions that it holds finds the
beginning of each of them and then goes on behind the last one. -/
theorem boundaries_of_holds (instructions : List Instruction)
    (holds : chunk.Holds offset (instructions.flatMap bytes)) :
    chunk.boundaries offset = (place offset instructions).map Prod.fst
      ++ chunk.boundaries (offset + totalSize instructions) := by
  induction instructions generalizing offset with
  | nil => rfl
  | cons _ _ ih =>
    rw [List.flatMap_cons, holds_append, length_bytes] at holds
    have inside : offset < chunk.size := by
      have found := holds.1.1
      rw [byte?_eq] at found
      have bound := (List.getElem?_eq_some_iff.mp found).1
      rwa [length_values] at bound
    rw [boundaries, if_pos inside, next_of_holds holds.1,
      ih holds.2, place, List.map_cons, List.cons_append, totalSize_cons, Nat.add_assoc]

/-- The beginnings of instructions in sequence, and the offset behind them. -/
def stops (offset : Nat) (instructions : List Instruction) : List Nat :=
  (place offset instructions).map Prod.fst ++ [offset + totalSize instructions]

theorem start_mem_stops (offset : Nat) (instructions : List Instruction) :
    offset ∈ stops offset instructions := by
  cases instructions with
  | nil => exact List.mem_singleton_self offset
  | cons => exact .head _

theorem end_mem_stops (offset : Nat) (instructions : List Instruction) :
    offset + totalSize instructions ∈ stops offset instructions :=
  List.mem_append_right _ (.head _)

theorem totalSize_append (first second : List Instruction) :
    totalSize (first ++ second) = totalSize first + totalSize second := by
  rw [totalSize, List.flatMap_append, List.length_append, totalSize, totalSize]

theorem stops_subset_append_right (first second : List Instruction) :
    stops (offset + totalSize first) second ⊆ stops offset (first ++ second) := by
  intro stop member
  rw [stops, place_append, List.map_append, totalSize_append, List.append_assoc, ← Nat.add_assoc]
  exact List.mem_append_right _ member

/-- The offset behind the first part is the beginning of the second one. -/
theorem stops_subset_append_left (first second : List Instruction) :
    stops offset first ⊆ stops offset (first ++ second) := by
  intro stop member
  rcases List.mem_append.mp member with inside | behind
  · rw [stops, place_append, List.map_append]
    exact List.mem_append_left _ (List.mem_append_left _ inside)
  · rw [List.mem_singleton.mp behind]
    exact stops_subset_append_right first second (start_mem_stops _ second)

/-- Where a jump that stands at an offset leads. -/
def target? (offset : Nat) (instruction : Instruction) : Option Nat :=
  match instruction.opcode, instruction.operands with
  | .jump, [high, low] => some (offset + 3 + (joinBytes high low).toNat)
  | .jumpIfFalse, [high, low] => some (offset + 3 + (joinBytes high low).toNat)
  | .loop, [high, low] =>
    let distance := (joinBytes high low).toNat
    if distance ≤ offset + 3 then some (offset + 3 - distance) else none
  | _, _ => none

/-- Every jump among instructions in sequence leads to the beginning of one of
them or behind the last one. -/
def JumpsInside (offset : Nat) (instructions : List Instruction) (stops : List Nat) : Prop :=
  ∀ position instruction, (position, instruction) ∈ place offset instructions ->
    instruction.opcode.isJump = true ->
      ∃ target, target? position instruction = some target ∧ target ∈ stops

theorem JumpsInside.append {first second : List Instruction} {stops : List Nat}
    (inFirst : JumpsInside offset first stops)
    (inSecond : JumpsInside (offset + totalSize first) second stops) :
    JumpsInside offset (first ++ second) stops := by
  intro position instruction member
  rw [place_append] at member
  rcases List.mem_append.mp member with earlier | later
  · exact inFirst position instruction earlier
  · exact inSecond position instruction later

theorem JumpsInside.mono (inside : JumpsInside offset instructions fewer) (included : fewer ⊆ more) :
    JumpsInside offset instructions more := by
  intro position instruction member isJump
  obtain ⟨target, found, stop⟩ := inside position instruction member isJump
  exact ⟨target, found, included stop⟩

theorem JumpsInside.single {stops : List Nat} (leads : instruction.opcode.isJump = true ->
      ∃ target, target? offset instruction = some target ∧ target ∈ stops) :
    JumpsInside offset [instruction] stops := by
  intro position other member isJump
  obtain ⟨rfl, rfl⟩ := Prod.mk.inj (List.mem_singleton.mp member)
  exact leads isJump

end Instruction

namespace Code

variable {Mark : Type} {offset : Nat} {distance : Nat}

theorem totalSize_instructions (code : Code Mark) :
    Instruction.totalSize code.instructions = code.size := code.length_bytes

private theorem toNat_distance (fits : distance < 65536) : distance.toUInt16.toNat = distance :=
  UInt16.toNat_ofNat_of_lt fits

theorem target?_jumpIfFalse (fits : distance < 65536) :
    (jumpIfFalse distance).target? offset = some (offset + jumpSize + distance) := by
  simp only [target?, jumpIfFalse, withWord, wordBytes,
    joinBytes_highByte_lowByte, toNat_distance fits, jumpSize]

theorem target?_jump (fits : distance < 65536) :
    (jump distance).target? offset = some (offset + jumpSize + distance) := by
  simp only [target?, jump, withWord, wordBytes,
    joinBytes_highByte_lowByte, toNat_distance fits, jumpSize]

theorem target?_jumpBack (fits : distance + jumpSize < 65536) :
    (jumpBack (distance + jumpSize)).target? (offset + distance) = some offset := by
  have inside : distance + jumpSize ≤ offset + distance + 3 := by
    exact Nat.le_add_left _ offset
  simp only [target?, jumpBack, withWord, wordBytes,
    joinBytes_highByte_lowByte, toNat_distance fits, if_pos inside]
  rw [jumpSize, Nat.add_assoc, Nat.add_sub_cancel]

/-- Every jump of structured code leads to the beginning of one of its
instructions or behind its end. -/
theorem jumpsInside (code : Code Mark) (fits : code.Fits) :
    Instruction.JumpsInside offset code.instructions (stops offset code.instructions) := by
  induction code generalizing offset with
  | empty => intro _ _ member; exact nomatch member
  | single =>
    refine .single fun isJump => ?_
    rw [fits] at isJump
    exact absurd isJump Bool.false_ne_true
  | append _ _ firstInside secondInside =>
    refine .append ?_ ?_
    · exact (firstInside fits.1).mono (stops_subset_append_left _ _)
    · exact (secondInside fits.2).mono (stops_subset_append_right _ _)
  | branch whenTrue whenFalse trueInside falseInside =>
    obtain ⟨trueSmall, falseSmall, trueFits, falseFits⟩ := fits
    -- The two jumps lead to the second part and behind it.
    let test := jumpIfFalse (whenTrue.size + jumpSize)
    let skip := jump whenFalse.size
    have shape : (branch whenTrue whenFalse).instructions
        = ([test] ++ whenTrue.instructions ++ [skip]) ++ whenFalse.instructions := by
      simp only [instructions, List.cons_append, List.append_assoc, List.nil_append, test, skip]
    have before : totalSize ([test] ++ whenTrue.instructions ++ [skip])
        = jumpSize + (whenTrue.size + jumpSize) := by
      simp only [totalSize_append, totalSize_instructions]
      rfl
    rw [shape]
    refine .append (.append (.append (.single fun _ => ?_) ?_) (.single fun _ => ?_)) ?_
    · refine ⟨_, target?_jumpIfFalse trueSmall, ?_⟩
      rw [Nat.add_assoc, ← before]
      exact stops_subset_append_right _ _ (start_mem_stops _ _)
    · refine (trueInside trueFits).mono fun stop member => ?_
      have inBoth := stops_subset_append_right [test] whenTrue.instructions member
      exact stops_subset_append_left _ _ (stops_subset_append_left _ _ inBoth)
    · refine ⟨_, target?_jump falseSmall, ?_⟩
      have behind := end_mem_stops offset
        (([test] ++ whenTrue.instructions ++ [skip]) ++ whenFalse.instructions)
      rw [totalSize_append, before, totalSize_instructions] at behind
      rw [totalSize_append, totalSize_instructions, show totalSize [test] = jumpSize from rfl]
      simpa only [Nat.add_assoc] using behind
    · exact (falseInside falseFits).mono (stops_subset_append_right _ _)
  | guarded whenTrue trueInside =>
    refine .append (.single fun _ => ?_) ?_
    · refine ⟨_, target?_jumpIfFalse fits.1, ?_⟩
      have behind := end_mem_stops offset (guarded whenTrue).instructions
      rw [totalSize_instructions, size, ← Nat.add_assoc] at behind
      exact behind
    · exact (trueInside fits.2).mono (stops_subset_append_right [jumpIfFalse whenTrue.size] _)
  | loop condition body conditionInside bodyInside =>
    obtain ⟨small, conditionFits, bodyFits⟩ := fits
    let test := jumpIfFalse (body.size + jumpSize)
    let back := jumpBack (condition.size + jumpSize + body.size + jumpSize)
    have shape : (loop condition body).instructions
        = condition.instructions ++ ([test] ++ body.instructions) ++ [back] := by
      simp only [instructions, List.cons_append, List.nil_append, test, back]
    have before : totalSize (condition.instructions ++ ([test] ++ body.instructions))
        = condition.size + jumpSize + body.size := by
      simp only [totalSize_append, totalSize_instructions]
      rw [Nat.add_assoc]
      rfl
    rw [shape]
    refine .append (.append ?_ (.append (.single fun _ => ?_) ?_)) (.single fun _ => ?_)
    · refine (conditionInside conditionFits).mono fun stop member => ?_
      exact stops_subset_append_left _ _ (stops_subset_append_left _ _ member)
    · refine ⟨_, target?_jumpIfFalse (by omega), ?_⟩
      have behind := end_mem_stops offset
        (condition.instructions ++ ([test] ++ body.instructions) ++ [back])
      rw [totalSize_append, before] at behind
      rw [totalSize_instructions]
      have equal : offset + condition.size + jumpSize + (body.size + jumpSize)
          = offset + (condition.size + jumpSize + body.size + totalSize [back]) := by
        have : totalSize [back] = jumpSize := rfl
        omega
      rw [equal]
      exact behind
    · refine (bodyInside bodyFits).mono fun stop member => ?_
      have inLater := stops_subset_append_right [test] body.instructions member
      exact stops_subset_append_left _ _ (stops_subset_append_right _ _ inLater)
    · refine ⟨offset, ?_, start_mem_stops _ _⟩
      rw [before]
      exact target?_jumpBack small
  | marked _ _ partInside => exact partInside fits

end Code
end OpMachine
