import OpMachine.Proofs.CompiledTree
import OpMachine.Proofs.TranslatedInstructions

namespace OpMachine

/-!
# Well-formed code

Operands of instructions are small numbers that stand for something else: a
constant, a slot, an entry of a table, a member of a host type, a place in the
code.  A compiled method is well formed when its chunk is a sequence of whole
instructions that ends with a return, every jump goes to an instruction of the
chunk, and every other number stands for something that is there and of the
right sort.

Everything a compilation makes is well formed.  The only thing asked of the
source is that a reference to a parameter is one of those the method or
function has.
-/

/-! ## Operands -/

namespace Instruction

def byteAt (instruction : Instruction) (index : Nat) : UInt8 :=
  instruction.operands.getD index 0

/-- The operand of two bytes that starts at an index. -/
def wordAt (instruction : Instruction) (index : Nat) : UInt16 :=
  Chunk.joinBytes (instruction.byteAt index) (instruction.byteAt (index + 1))

theorem wordAt_withWord (opcode : Opcode) (value : UInt16) (complete : opcode.operandSize = 2) :
    (withWord opcode value complete).wordAt 0 = value := Chunk.joinBytes_highByte_lowByte value

theorem wordAt_withCount (opcode : Opcode) (value : UInt16) (count : UInt8)
    (complete : opcode.operandSize = 3) : (withCount opcode value count complete).wordAt 0 = value :=
  Chunk.joinBytes_highByte_lowByte value

theorem wordAt_new_type (type constructor : UInt16) (count : UInt8) :
    (new type constructor count).wordAt 0 = type := Chunk.joinBytes_highByte_lowByte type

theorem wordAt_new_constructor (type constructor : UInt16) (count : UInt8) :
    (new type constructor count).wordAt 2 = constructor :=
  Chunk.joinBytes_highByte_lowByte constructor

end Instruction

namespace Chunk

variable {chunk : Chunk} {position index : Nat} {instruction : Instruction}

private theorem byte?_of_holds_operands {offset : Nat} {bytes : List UInt8}
    (holds : chunk.Holds offset bytes) (inside : index < bytes.length) :
    chunk.byte? (offset + index) = some (bytes.getD index 0) := by
  induction bytes generalizing offset index with
  | nil => exact absurd inside (Nat.not_lt_zero _)
  | cons _ _ ih =>
    cases index with
    | zero => exact holds.1
    | succ index =>
      exact (congrArg chunk.byte? (Nat.add_right_comm offset index 1)).trans
        (ih holds.2 (Nat.lt_of_succ_lt_succ inside))

theorem byte?_operand (holds : chunk.Holds position instruction.bytes)
    (inside : index < instruction.opcode.operandSize) :
    chunk.byte? (position + 1 + index) = some (instruction.byteAt index) :=
  byte?_of_holds_operands holds.2 (instruction.complete.symm ▸ inside)

theorem word?_operand (holds : chunk.Holds position instruction.bytes)
    (inside : index + 1 < instruction.opcode.operandSize) :
    chunk.word? (position + 1 + index) = some (instruction.wordAt index) := by
  unfold word?
  rw [byte?_operand holds (Nat.lt_of_succ_lt inside), Nat.add_assoc, byte?_operand holds inside]
  rfl

end Chunk

open Instruction

theorem Instruction.boundaries_of_values {chunk : Chunk}
    (values : chunk.values = instructions.flatMap bytes) :
    chunk.boundaries 0 = (place 0 instructions).map Prod.fst := by
  have holds : chunk.Holds 0 (instructions.flatMap bytes) :=
    chunk.holds_of_values_eq [] _ [] (values.trans (List.append_nil _).symm)
  have size : chunk.size = 0 + totalSize instructions := by
    rw [← chunk.length_values, values, Nat.zero_add]
    rfl
  rw [boundaries_of_holds _ holds, ← size, Chunk.boundaries, if_neg (Nat.lt_irrefl _),
    List.append_nil]

/-! ## What operands stand for -/

namespace CompiledMethod

variable (method : CompiledMethod)

def value? (index : Nat) : Option Value :=
  method.pool.get? index >>= Constant.value?

/-- The hash that a constant of a method is. -/
def hash? (index : Nat) : Option TypeHash :=
  method.pool.get? index >>= Constant.hash?

/-- Whether the operands of an instruction stand for something that is there.
Jumps are not looked at, and argument slots only if the check is strict: they
come from the source, which may name parameters that a method does not have.
In any case the slot of the receiver is not written. -/
def admits (catalog : Catalog) (strict : Bool) (instruction : Instruction) : Bool :=
  match instruction.opcode with
  | .constant => (method.value? (instruction.byteAt 0).toNat).isSome
  | .constantWide => (method.value? (instruction.wordAt 0).toNat).isSome
  | .pushDefault | .newArray => (method.hash? (instruction.wordAt 0).toNat).isSome
  | .getArg => !strict || (instruction.byteAt 0).toNat < method.argumentSlots
  | .setArg => (!strict || (instruction.byteAt 0).toNat < method.argumentSlots)
      && (!method.hasReceiver || (instruction.byteAt 0).toNat ≠ 0)
  | .getLocal | .setLocal => (instruction.wordAt 0).toNat < method.localCount
  | .convert => (NumericKind.ofByte? (instruction.byteAt 0)).isSome
  | .callStatic | .callMethod | .callVirtual =>
    (method.hash? (instruction.wordAt 0).toNat >>= catalog.method?).isSome
  | .callUnit => (instruction.byteAt 0).toNat < method.callees.length
  | .new => (method.hash? (instruction.wordAt 0).toNat).isSome
      && (method.hash? (instruction.wordAt 2).toNat >>= catalog.method?).isSome
  | .getField | .setField => (method.hash? (instruction.wordAt 0).toNat >>= catalog.field?).isSome
  | .getProperty | .getPropertyVirtual | .getStaticProperty
  | .setProperty | .setPropertyVirtual | .setStaticProperty =>
    (method.hash? (instruction.wordAt 0).toNat >>= catalog.property?).isSome
  | .loadDelegate => (instruction.byteAt 0).toNat < method.lambdas.length
  | _ => true

/-- The code of a method is a sequence of instructions that is in order. -/
structure Decodes (catalog : Catalog) (strict : Bool) (method : CompiledMethod)
    (instructions : List Instruction) : Prop where
  bytes : method.chunk.values = instructions.flatMap bytes
  admitted : ∀ instruction, instruction ∈ instructions ->
    method.admits catalog strict instruction = true
  /-- Every jump goes to the start of an instruction. -/
  jumps : Instruction.JumpsInside 0 instructions (method.chunk.boundaries 0)
  returns : ∃ front, ∃ last : Instruction, instructions = front ++ [last]
    ∧ (last.opcode = .returnValue ∨ last.opcode = .returnVoid)

/-- Code that is in order, its argument slots included. -/
def WellFormed (catalog : Catalog) (method : CompiledMethod) : Prop :=
  ∃ instructions, method.Decodes catalog true instructions

/-- A property of a method, of the methods it calls and of the functions it
loads, and so on through all tables. -/
inductive Throughout (Property : CompiledMethod -> Prop) : CompiledMethod -> Prop
  | intro {method : CompiledMethod} (here : Property method)
      (callees : ∀ callee, callee ∈ method.callees -> Throughout Property callee)
      (lambdas : ∀ lambda, lambda ∈ method.lambdas -> Throughout Property lambda.method) :
      Throughout Property method

end CompiledMethod

/-! ## Single instructions -/

/-- A parameter with a slot is one of the body at hand. -/
theorem SlotTable.parameterSlot_ok {table : SlotTable}
    (found : table.parameterSlot symbol = .ok slot) :
    symbol.owner = table.owner
      ∧ slot.toNat = symbol.ordinal + if table.hasReceiver then 1 else 0 := by
  unfold parameterSlot at found
  by_cases foreign : symbol.owner ≠ table.owner
  · rw [if_pos foreign] at found
    cases found
  · rw [if_neg foreign] at found
    by_cases small : (symbol.ordinal + if table.hasReceiver then 1 else 0) < 256
    · simp only [if_pos small] at found
      cases found
      exact ⟨Classical.not_not.mp foreign, UInt8.toNat_ofNat_of_lt small⟩
    · simp only [if_neg small] at found
      cases found

/-- A reference to a parameter of a method is to one of those it has. -/
def Operation.HasOrdinal (symbol : MethodSymbol) : Operation -> Prop
  | .parameter _ reference =>
    reference.owner = symbol.id -> reference.ordinal < symbol.parameters.length
  | _ => True

/-- A target whose call instruction stands for something. -/
def CallTarget.IsThere (method : CompiledMethod) (catalog : Catalog) : CallTarget -> Prop
  | .self => True
  | .declared index => index.toNat < method.callees.length
  | .host entry => entry.IsKnown catalog

theorem ConstantPool.Has.isSome_value {pool : ConstantPool} (present : pool.Has index constant)
    (isValue : constant.value?.isSome = true) :
    (pool.get? index >>= Constant.value?).isSome = true := by
  obtain ⟨stored, found, sameKey⟩ := present
  rw [found]
  cases constant with
  | hash => cases isValue
  | _ => cases stored <;> first | rfl | cases sameKey

namespace CompiledMethod.Encodes

open Compile

variable {method : CompiledMethod} {outer : Surroundings} {origin catalog : Catalog}
  {symbol : MethodSymbol} {operation : Operation} {finished : Body} {whole : MarkedCode}
  {strict : Bool} {code : MarkedCode} {depth low : Nat}

private theorem isSome_bind {α β : Type} {found : Option α} {value : α} {next : α -> Option β}
    (isValue : found = some value) (isSome : (next value).isSome = true) :
    (found >>= next).isSome = true := by
  rw [isValue]
  exact isSome

/-- An argument slot that is there if it has to be. -/
theorem admits_argument {slot : UInt8} (isThere : strict = true -> slot.toNat < method.argumentSlots) :
    (!strict || decide (slot.toNat < method.argumentSlots)) = true := by
  cases strict with
  | false => rfl
  | true => exact decide_eq_true (isThere rfl)

section

variable (encodes : method.Encodes outer origin symbol operation finished whole)
  {hash : TypeHash} {slot index : UInt16} {opcode : Opcode} {target : CallTarget}

include encodes

theorem hash?_of_has {index : Nat}
    (present : finished.emitter.pool.Has index (.hash hash)) : method.hash? index = some hash := by
  rw [hash?, encodes.pool, present.hash]
  rfl

variable (complete : opcode.operandSize = 2)

theorem admits_hash (present : finished.emitter.pool.Has index.toNat (.hash hash)) :
    method.hash? ((withWord opcode index complete).wordAt 0).toNat = some hash := by
  rw [wordAt_withWord]
  exact encodes.hash?_of_has present

theorem admits_countedHash (complete : opcode.operandSize = 3)
    (present : finished.emitter.pool.Has index.toNat (.hash hash)) :
    method.hash? ((withCount opcode index count complete).wordAt 0).toNat = some hash := by
  rw [wordAt_withCount]
  exact encodes.hash?_of_has present

theorem admits_local (accesses : opcode = .getLocal ∨ opcode = .setLocal)
    (inside : slot.toNat < finished.slots.localCount) :
    method.admits catalog strict (.withWord opcode slot complete) = true := by
  have isThere : ((withWord opcode slot complete).wordAt 0).toNat < method.localCount := by
    rw [wordAt_withWord, encodes.localCount]
    exact inside
  rcases accesses with rfl | rfl <;> exact decide_eq_true isThere

theorem admits_access {access : MemberAccess} (complete : opcode.operandSize = 2)
    (either : opcode = access.loadOpcode ∨ opcode = access.storeOpcode)
    (present : finished.emitter.pool.Has index.toNat (.hash access.hash))
    (known : access.IsKnown catalog) :
    method.admits catalog strict (.withWord opcode index complete) = true := by
  have isHash := encodes.admits_hash complete present
  cases access with
  | field | staticProperty => rcases either with rfl | rfl <;> exact isSome_bind isHash known
  | property _ isVirtual =>
    cases isVirtual <;> rcases either with rfl | rfl <;> exact isSome_bind isHash known

/-- A parameter that has a slot has not that of the receiver, and if the method
has the parameter it has the slot among its argument slots. -/
theorem isThere_parameter {reference : ParameterSymbol} {slot : UInt8}
    (found : finished.slots.parameterSlot reference = .ok slot)
    (inside : strict = true -> reference.owner = symbol.id ->
      reference.ordinal < symbol.parameters.length) :
    (strict = true -> slot.toNat < method.argumentSlots)
      ∧ (method.hasReceiver = true -> slot.toNat ≠ 0) := by
  obtain ⟨own, isSlot⟩ := SlotTable.parameterSlot_ok found
  rw [isSlot]
  refine ⟨fun isStrict => ?_, fun hasReceiver => ?_⟩
  · rw [argumentSlots, encodes.parameterCount, encodes.receiver]
    exact Nat.add_lt_add_right (inside isStrict (own.trans encodes.owner)) _
  · rw [if_pos (encodes.receiver ▸ hasReceiver)]
    exact Nat.succ_ne_zero _

theorem isThere_target (coherent : origin.Coherent)
    (grown : finished.workspace.catalog.Grows catalog) {hasReceiver : Bool}
    (found : Obtains outer origin depth finished
      (callTarget outer hasReceiver callee count) target) : target.IsThere method catalog := by
  cases target with
  | self => trivial
  | declared =>
    obtain ⟨_, isCalled⟩ := found.declaredTarget
    rw [← encodes.callees] at isCalled
    exact (List.getElem?_eq_some_iff.mp isCalled).1
  | host => exact (Obtains.hostTarget coherent found).grow grown

/-- Every instruction of translated code stands for something. -/
theorem admits_of_serves (coherent : origin.Coherent)
    (grown : finished.workspace.catalog.Grows catalog) {instruction : Instruction}
    (serves : Serves origin finished strict (Operation.HasOrdinal symbol) low instruction) :
    method.admits catalog strict instruction = true := by
  cases serves with
  | @plain opcode complete => cases opcode <;> first | rfl | cases complete
  | jump isJump =>
    unfold admits
    cases named : instruction.opcode <;> first | rfl | (rw [named] at isJump; cases isJump)
  | argument accesses found known =>
    have isThere := encodes.isThere_parameter found known
    rcases accesses with rfl | rfl
    · exact admits_argument isThere.1
    · refine Bool.and_eq_true_iff.mpr ⟨admits_argument isThere.1, ?_⟩
      cases hasReceiver : method.hasReceiver with
      | false => rfl
      | true => exact decide_eq_true (isThere.2 hasReceiver)
  | declared accesses found => exact encodes.admits_local _ accesses (encodes.sound.slots _ _ found)
  | temporary accesses isTemporary => exact encodes.admits_local _ accesses isTemporary.inside
  | element accesses => rcases accesses with rfl | rfl <;> rfl
  | @convert kind => exact congrArg Option.isSome (NumericKind.ofByte?_toByte kind)
  | @constant _ index present isValue =>
    change (method.pool.get? index.toNat >>= Constant.value?).isSome = true
    rw [encodes.pool]
    exact present.isSome_value isValue
  | @constantWide _ index present isValue =>
    refine (congrArg (fun word : UInt16 => (method.value? word.toNat).isSome)
      (wordAt_withWord .constantWide index rfl)).trans ?_
    rw [value?, encodes.pool]
    exact present.isSome_value isValue
  | pushDefault present => exact Option.isSome_iff_exists.mpr ⟨_, encodes.admits_hash rfl present⟩
  | newArray present =>
    exact Option.isSome_iff_exists.mpr ⟨_, encodes.admits_countedHash rfl present⟩
  | @new type hash typeIndex constructorIndex count isType creates known =>
    obtain ⟨entry, rfl, isKnown⟩ := known coherent
    have typeHash : method.hash? ((Instruction.new typeIndex constructorIndex count).wordAt 0).toNat
        = some type := by
      rw [wordAt_new_type]
      exact encodes.hash?_of_has isType
    have constructorHash :
        method.hash? ((Instruction.new typeIndex constructorIndex count).wordAt 2).toNat
          = some entry.hash := by
      rw [wordAt_new_constructor]
      exact encodes.hash?_of_has creates
    exact Bool.and_eq_true_iff.mpr ⟨Option.isSome_iff_exists.mpr ⟨type, typeHash⟩,
      isSome_bind constructorHash (isKnown.grow grown).isSome_method?⟩
  | access accesses present known =>
    exact encodes.admits_access _ accesses present ((known coherent).grow grown)
  | callHost calls present known =>
    have isThere := ((known coherent).grow grown).isSome_method?
    rcases calls with rfl | rfl | rfl <;>
      exact isSome_bind (encodes.admits_countedHash rfl present) isThere
  | callSelf | invokeDelegate => rfl
  | callUnit isCalled =>
    rw [← encodes.callees] at isCalled
    exact decide_eq_true (List.getElem?_eq_some_iff.mp isCalled).1
  | loadDelegate inside =>
    rw [← encodes.lambdas] at inside
    exact decide_eq_true inside

end

/-! ## Whole bodies -/

theorem ends_with_return {returnsValue : Bool}
    (translates : Translates outer origin finished depth low (.body returnsValue operation) code) :
    ∃ (inner : MarkedCode) (last : Instruction), code = inner ++ .single last
      ∧ (last.opcode = .returnValue ∨ last.opcode = .returnVoid) := by
  cases translates with
  | statementBody | effectBody => exact ⟨_, _, rfl, .inr rfl⟩
  | valueBody => exact ⟨_, _, rfl, .inl rfl⟩

/-- The code of a compiled method is in order with every later state of the
catalog. -/
theorem decodes (encodes : method.Encodes outer origin symbol operation finished whole)
    (coherent : origin.Coherent) (grown : finished.workspace.catalog.Grows catalog)
    (ordinals : strict = true -> operation.Throughout (Operation.HasOrdinal symbol)) :
    method.Decodes catalog strict whole.instructions := by
  obtain ⟨inner, last, isWhole, isReturn⟩ := ends_with_return encodes.translates
  have total : whole.instructions = inner.instructions ++ [last] := by
    rw [isWhole]
    rfl
  -- The end of the inner code is where the return begins.
  have stops : stops 0 inner.instructions = method.chunk.boundaries 0 := by
    rw [boundaries_of_values encodes.values, total, place_append, List.map_append]
    rfl
  refine ⟨encodes.values, ?_, ?_, inner.instructions, last, total, isReturn⟩
  · have known : (Task.body symbol.returnsValue operation).ThroughoutIf strict
        (Operation.HasOrdinal symbol) :=
      fun isStrict part member => List.mem_singleton.mp member ▸ ordinals isStrict
    exact fun instruction member => encodes.admits_of_serves coherent grown
      (encodes.translates.serves known (Nat.le_refl 0) instruction member)
  · rw [total, ← stops]
    have fits : inner.Fits ∧ _ := isWhole ▸ encodes.fits
    refine .append (inner.jumpsInside fits.1) (.single fun isJump => ?_)
    rcases isReturn with named | named <;> rw [named] at isJump <;> cases isJump

end CompiledMethod.Encodes

/-! ## Everything that a compilation makes -/

variable {source : Source} {Property : CompiledMethod -> Prop}

/-- A property of everything that a compilation makes, without the bodies. -/
theorem Source.Makes.throughout (makes : source.Makes Holds site method)
    (implies : ∀ {site method}, source.Makes Holds site method -> Property method) :
    method.Throughout Property := by
  induction makes with
  | intro here called loaded calls loads callees lambdas calleesHave lambdasHave =>
    exact .intro (implies (.intro here called loaded calls loads callees lambdas)) calleesHave
      lambdasHave

/-- A property that every encoded body has, hold of everything that a declaration
compiles to. -/
theorem Make.throughout_declaration {catalog : Catalog}
    (holds : ∀ {compiled : CompiledMethod} {session : Session} {levels : Nat}
      {active : List SymbolId} {origin : Catalog} {symbol : MethodSymbol} {operation : Operation}
      {finished : Body} {code : MarkedCode},
      source.HasBody symbol operation -> origin.Coherent ->
      finished.workspace.catalog.Grows catalog ->
      compiled.Encodes ⟨session, callee source levels active⟩ origin symbol operation finished
        code -> Property compiled) {id : SyntaxId} (coherent : before.catalog.Coherent)
    (compiles : declaration source id before = .ok function after)
    (grown : after.catalog.Grows catalog) : function.method.Throughout Property := by
  obtain ⟨symbol, operation, found, compiles⟩ := declaration_ok compiles
  have made : ∃ site : Site, site.Enters [] symbol operation
      ∧ source.Makes (fun _ => Property) site function.method := by
    refine makes_nested (fun body begun grows making => ?_) (Source.hasBody_of_body? found)
      (.refl _) compiles grown
    obtain ⟨_, _, _, encodes, rfl⟩ := method_ok (conservative_callee source _ _ _) making
    exact holds body (begun.coherent coherent) grows encodes
  obtain ⟨_, _, makes⟩ := made
  exact makes.throughout fun makes => makes.here

end OpMachine
