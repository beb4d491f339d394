import OpMachine.Proofs.StackHeights
import OpMachine.Proofs.SuccessfulCompilation

namespace OpMachine

/-!
# The discipline of the compiler with the stack

The code of every typed tree keeps the discipline of `Code.Climbs`.  Whether the
value of an expression has to be dropped is decided by its static type, and
whether a call pushes one by the method that the machine finds under the hash in
the code; a tree is typed if the two agree.  The other expressions push one value
whatever their types are.

The method that is found is the one that the compiler chose unless a registered
method has the hash of a closed one, so nothing is assumed about hashes.

The code of an object initializer is balanced as long as its entries store in
members of the object under construction, and nothing else does.
-/

/-! ## Catalogs -/

open SystemTypes

/-- Whether a call of what is found under a hash pushes a value. -/
def Catalog.returns (catalog : Catalog) (hash : TypeHash) : Bool :=
  ((catalog.method? hash).map MethodEntry.returnsValue).getD false

theorem MethodEntry.IsKnown.map_returnsValue {entry : MethodEntry}
    (known : entry.IsKnown catalog) :
    (catalog.method? entry.hash).map MethodEntry.returnsValue
      = some (catalog.returns entry.hash) := by
  rcases Option.isSome_iff_exists.mp known.isSome_method? with ⟨found, isFound⟩
  rw [Catalog.returns, isFound]
  rfl

theorem SystemTypes.returnType_of_mem_textBuilder
    (member : method ∈ (Catalog.hostType textBuilder none).methods) :
    method.returnType = if method.name = takeTextName then .string else .void := by
  rcases List.mem_map.mp member with ⟨definition, listed, rfl⟩
  rcases listed with _ | ⟨_, _ | ⟨_, _ | ⟨_, _ | ⟨_, _ | ⟨_, _ | ⟨_, ⟨⟩⟩⟩⟩⟩⟩⟩ <;> rfl

namespace Catalog

variable {catalog : Catalog}

theorem returns_of_registered {entry : MethodEntry} (registered : catalog.methods[entry.hash]? = some entry) :
    catalog.returns entry.hash = entry.returnsValue := by
  rw [returns, method?, registered]
  rfl

end Catalog

/-! ## Methods that build texts -/

namespace Compile

variable {surroundings : Surroundings} {origin catalog : Catalog} {depth : Nat} {finished : Body}
  {builder : TypeHash} {type : HostType} {name : String} {entry : MethodEntry}
  {arguments : List HoleArgument} {shape : HoleShape}

def alignmentCount : List HoleArgument -> Nat
  | [] => 0
  | .alignment _ :: rest => alignmentCount rest + 1
  | .format _ :: rest => alignmentCount rest

/-- The type that every catalog holds for texts has methods that return nothing,
but for the one that takes the text. -/
theorem Obtains.returns_builderMethod (coherent : origin.Coherent)
    (isBuilder : catalog.types[builder]? = some (Catalog.hostType SystemTypes.textBuilder none))
    (grown : finished.workspace.catalog.Grows catalog) {requested : List TypeHash}
    (obtained : Obtains surroundings origin depth finished
      (Compile.builderMethod builder name requested) entry) :
    catalog.returns entry.hash = decide (name = takeTextName) := by
  obtain ⟨_, before, sound, _, runs, _, _, extending⟩ := obtained.run
  obtain ⟨rfl, candidate, member, rfl⟩ := builderMethod_cases runs
  have later := extending.catalog.trans grown
  have registered := (sound.origin.coherent coherent).registered_of_mem_methodsNamed member
  rw [← later.methods] at registered
  obtain ⟨_, _, inside, listed, named⟩ := Catalog.exists_of_mem_methodsNamed member
  rw [Catalog.hierarchy_of_registered (later.types ▸ isBuilder) rfl rfl] at inside
  cases List.mem_singleton.mp inside
  rw [Catalog.returns_of_registered registered, MethodEntry.returnsValue,
    returnType_of_mem_textBuilder listed, named]
  by_cases isTake : name = takeTextName
  · rw [if_pos isTake, decide_eq_true isTake]
    rfl
  · rw [if_neg isTake, decide_eq_false isTake]
    rfl

/-- The method that appends a hole takes the value, its width and its format. -/
theorem Obtains.count_appendHole {count : UInt8}
    (obtained : Obtains surroundings origin depth finished
      (Compile.appendHole builder value arguments) (entry, shape, count)) :
    count.toNat = 1 + alignmentCount arguments + shape.format.isSome.toNat := by
  obtain ⟨_, _, sound, _, runs, _⟩ := obtained.run
  obtain ⟨shaped, _, _, _, _, _, rfl, _⟩ := appendHole_cases sound runs
  unfold HoleShape.ofArguments? at shaped
  split at shaped <;> cases shaped <;> rfl

end Compile

/-! ## Typed trees -/

/-- Whether an expression is a call, possibly in parentheses. -/
def Operation.isInvocation : Operation -> Bool
  | .invocation _ _ _ _ => true
  | .parenthesized _ operand => operand.isInvocation
  | _ => false

/-- The member of the object under construction that a target is. -/
def Operation.initialized? : Operation -> Option MemberSymbol
  | .member _ _ (some (.implicitReceiver _)) symbol => some symbol
  | .parenthesized _ target => target.initialized?
  | _ => none

/-- Whether the call of a target pushes a value. -/
def CallTarget.returnsValue (catalog : Catalog) (symbol : MethodSymbol)
    (callees : List CompiledMethod) : CallTarget -> Bool
  | .self => symbol.returnsValue
  | .declared callee => (callees[callee.toNat]?.map (·.returnsValue)).getD false
  | .host method => catalog.returns method.hash

/-- A function value is invoked as the receiver of the call. -/
def CallTarget.InvokesReceiver : CallTarget -> Prop
  | .host method => method.body = .delegateInvoke -> method.isStatic = false
  | _ => True

/-- The body that a method was compiled from, with what is known of it at the
end. -/
structure MethodOrigin where
  surroundings : Surroundings
  catalog : Catalog
  symbol : MethodSymbol
  operation : Operation
  finished : Body
  code : MarkedCode

namespace MethodOrigin

variable (origin : MethodOrigin)

/-- The compiler had an answer on the way. -/
abbrev Obtains {α : Type} (depth : Nat) (action : Compile α) (value : α) : Prop :=
  Compile.Obtains origin.surroundings origin.catalog depth origin.finished action value

/-- Of the methods by which a text is built, none returns anything but the one
that takes the text. -/
structure BuildsWith (catalog : Catalog) (builder : TypeHash) : Prop where
  parts : ∀ depth name requested entry,
    origin.Obtains depth (Compile.builderMethod builder name requested) entry ->
      catalog.returns entry.hash = decide (name = takeTextName)
  holes : ∀ depth value arguments entry shape count,
    origin.Obtains depth (Compile.appendHole builder value arguments) (entry, shape, count) ->
      catalog.returns entry.hash = false

/-- A call that has a type exactly if what the compiler chose to call returns a
value, or a text that is built by such calls. -/
def CallsAsTyped (catalog : Catalog) : Operation -> Prop
  | .invocation info receiver method arguments => ∀ depth target,
      origin.Obtains depth (Compile.callTarget origin.surroundings receiver.isSome method
        arguments.length) target ->
      info.producesValue = target.returnsValue catalog origin.symbol origin.finished.callees
        ∧ target.InvokesReceiver
  | .interpolation _ _ => ∀ depth builder,
      origin.Obtains depth Compile.textBuilder builder -> origin.BuildsWith catalog builder
  | _ => True

/-- A target that is an instance member of the object under construction. -/
def IsOwnMember (target : Operation) : Prop :=
  ∃ symbol, target.initialized? = some symbol
    ∧ ∀ depth access, origin.Obtains depth (Compile.writableMember symbol) access ->
      access.isStatic = false

/-- An entry that stores in a member of the object under construction. -/
def IsEntry : Operation -> Prop
  | .assignment _ target _ => origin.IsOwnMember target
  | _ => False

/-- If there are no initializers, creations have no entries.  Otherwise all
entries store in the object under construction and no other assignment does. -/
def InitializesOwn (initializers : Bool) : Operation -> Prop
  | .objectCreation _ _ _ initializer =>
    if initializers then ∀ entry, entry ∈ initializer -> origin.IsEntry entry
    else initializer = []
  | .assignment _ target _ => initializers = true -> target.initialized? = none
  | _ => True

/-- An expression that code was emitted for is typed: it has a value, or it is a
call whose value is not wanted. -/
def IsTyped (catalog : Catalog) (initializers : Bool) : CodeMark -> Prop
  | .expression use operation =>
    (operation.producesValue = true ∨ use = .discarded ∧ operation.isInvocation = true)
      ∧ origin.CallsAsTyped catalog operation ∧ origin.InitializesOwn initializers operation
  | .statement _ => True

end MethodOrigin

/-! ## What the code of a task does to the height -/

/-- The number of values that the code of an expression leaves before they are
dropped. -/
def Operation.gain : Operation -> Nat
  | .invocation info _ _ _ => info.producesValue.toNat
  | _ => 1

/-- The heights between which the code of a task has to lead. -/
def MethodOrigin.Raises (origin : MethodOrigin) (catalog : Catalog) (initializers : Bool)
    (depth floor low high : Nat) : Compile.Task -> Prop
  | .value use _ => high = low + use.gain
  | .shape operation => high = low + operation.gain ∧ origin.CallsAsTyped catalog operation
      ∧ origin.InitializesOwn initializers operation
  | .values operations => high = low + operations.length
  | .items _ _ => 1 ≤ low ∧ high = low
  | .parts builder _ => 1 ≤ low ∧ high = low ∧ origin.BuildsWith catalog builder
  | .alignments arguments => high = low + Compile.alignmentCount arguments
  | .entries operations => 1 ≤ low ∧ high = low
      ∧ ∀ entry, entry ∈ operations -> origin.IsEntry entry
  | .store use target _ => (depth = 0 ∨ target.initialized? = none) ∧ high = low + use.gain
      ∨ use = .discarded ∧ low = high + 1 ∧ origin.IsOwnMember target
  | .update use _ _ _ => high = low + use.gain
  | .spills _ _ => high = low
  | .statement _ _ => floor = 0 ∧ low = 0 ∧ high = 0
  | .statements _ _ => floor = 0 ∧ low = 0 ∧ high = 0
  | .body _ _ => floor = 0 ∧ low = 0 ∧ high = 0

/-! ## Single steps -/

namespace MarkedCode.Climbs

variable {method : CompiledMethod} {catalog : Catalog} {floor : Nat} (low : Nat)
  {store code : MarkedCode} {count : Nat}

theorem pop : pop.Climbs method catalog floor (low + 1) low :=
  exchange low rfl rfl rfl fun _ => rfl

theorem dup : dup.Climbs method catalog floor (low + 1) (low + 2) :=
  exchange low rfl rfl rfl fun _ => rfl

theorem getLocal (slot : UInt16) : (getLocal slot).Climbs method catalog floor low (low + 1) :=
  exchange low rfl rfl rfl fun _ => rfl

theorem setLocal (slot : UInt16) : (setLocal slot).Climbs method catalog floor (low + 1) low :=
  exchange low rfl rfl rfl fun _ => rfl

theorem reload (slots : List UInt16) :
    (reload slots).Climbs method catalog floor low (low + slots.length) := by
  induction slots generalizing low with
  | nil => exact empty
  | cons slot _ ih =>
    have later := ih (low + 1)
    rw [Nat.add_assoc, Nat.add_comm 1] at later
    exact append (getLocal low slot) later

theorem loads {code : MarkedCode} (loads : Emit.Loads pool constant code) :
    code.Climbs method catalog floor low (low + 1) := by
  rcases loads with ⟨index, _, rfl⟩ | ⟨index, _, rfl⟩
  · exact exchange low rfl rfl rfl fun _ => rfl
  · exact exchange low rfl rfl rfl fun _ => rfl

theorem literal {literal : Literal} {code : MarkedCode} (isLoad : literal.Loads pool code) :
    code.Climbs method catalog floor low (low + 1) := by
  cases literal with
  | null =>
    rw [show code = _ from isLoad]
    exact exchange low rfl rfl rfl fun _ => rfl
  | bool value =>
    rw [show code = _ from isLoad]
    cases value <;> exact exchange low rfl rfl rfl fun _ => rfl
  | char | decimal => exact isLoad.elim
  | _ => exact loads low isLoad

/-- The store with a copy of the value kept if it is wanted. -/
theorem keeping
    (stores : ∀ low, store.Climbs method catalog floor (low + 1) low) (use : ValueUse) :
    (keeping use store).Climbs method catalog floor (low + 1) (low + use.gain) := by
  cases use with
  | discarded => exact stores low
  | kept => exact append (dup low) (stores (low + 1))

theorem storesAbove (above : Compile.StoresAbove finished taken store use code)
    (stores : store.Climbs method catalog floor (height + 1) low) :
    code.Climbs method catalog floor (height + 1) (low + use.gain) := by
  cases above with
  | discarded => exact stores
  | kept slot =>
    exact append (dup height) (append (setLocal (height + 1) slot)
      (append stores (getLocal low slot)))

section

variable {pool : ConstantPool} {access : MemberAccess} {code : MarkedCode}

theorem loadMember (onInstance : access.isStatic = false)
    (loads : (StorePlace.member access).LoadCode pool code) :
    code.Climbs method catalog floor (low + 1) (low + 1) := by
  rcases loads with ⟨index, _, rfl⟩
  cases access with
  | field => exact exchange low rfl rfl rfl fun _ => rfl
  | property _ isVirtual =>
    cases isVirtual <;> exact call low true (.inl rfl) rfl rfl rfl fun _ => rfl
  | staticProperty => cases onInstance

theorem storeMember (onInstance : access.isStatic = false)
    (stores : (StorePlace.member access).StoreCode pool code) :
    code.Climbs method catalog floor (low + 2) low := by
  rcases stores with ⟨index, _, rfl⟩
  cases access with
  | field => exact exchange low rfl rfl rfl fun _ => rfl
  | property _ isVirtual =>
    cases isVirtual <;> exact call low false (.inl rfl) rfl rfl rfl fun _ => rfl
  | staticProperty => cases onInstance

theorem loadStatic (static : access.isStatic = true)
    (loads : (StorePlace.member access).LoadCode pool code) :
    code.Climbs method catalog floor low (low + 1) := by
  rcases loads with ⟨index, _, rfl⟩
  cases access with
  | staticProperty => exact call low true (.inl rfl) rfl rfl rfl fun _ => rfl
  | _ => cases static

theorem storeStatic (static : access.isStatic = true)
    (stores : (StorePlace.member access).StoreCode pool code) :
    code.Climbs method catalog floor (low + 1) low := by
  rcases stores with ⟨index, _, rfl⟩
  cases access with
  | staticProperty => exact call low false (.inl rfl) rfl rfl rfl fun _ => rfl
  | _ => cases static

end

section

variable {surroundings : Surroundings} {origin : Catalog} {finished : Body} {depth : Nat}
  {target : Operation} {place : StorePlace} {code : MarkedCode}

theorem loadSimple (found : Compile.SimplePlace surroundings origin finished depth target place)
    (loads : place.LoadCode finished.emitter.pool code) :
    code.Climbs method catalog floor low (low + 1) := by
  cases found with
  | parameter =>
    rw [show code = _ from loads]
    exact exchange low rfl rfl rfl fun _ => rfl
  | localVariable =>
    rw [show code = _ from loads]
    exact getLocal low _
  | staticMember _ static => exact loadStatic low static loads

theorem storeSimple (found : Compile.SimplePlace surroundings origin finished depth target place)
    (stores : place.StoreCode finished.emitter.pool code) :
    code.Climbs method catalog floor (low + 1) low := by
  cases found with
  | parameter =>
    rw [show code = _ from stores]
    exact exchange low rfl rfl rfl fun _ => rfl
  | localVariable =>
    rw [show code = _ from stores]
    exact setLocal low _
  | staticMember _ static => exact storeStatic low static stores

end

variable {opcode : Opcode}

theorem operand (complete : opcode.operandSize = 0)
    (isOne : opcode = .not ∨ opcode = .neg ∨ opcode = .bitNot) :
    (plain opcode complete).Climbs method catalog floor (low + 1) (low + 1) := by
  rcases isOne with rfl | rfl | rfl <;> exact exchange low rfl rfl rfl fun _ => rfl

/-- Opcodes that take one operand each and leave their result. -/
theorem unary (operates : Compile.Operates opcodes code)
    (ones : ∀ opcode, opcode ∈ opcodes -> opcode = .not ∨ opcode = .neg ∨ opcode = .bitNot) :
    code.Climbs method catalog floor (low + 1) (low + 1) := by
  induction operates with
  | none => exact empty
  | next opcode complete _ _ ih =>
    have later := ih fun other member =>
      ones other (List.mem_cons_of_mem opcode member)
    exact append (operand low complete (ones opcode (.head _))) later

theorem binaryOperator {operator : BinaryOperator}
    (operates : Compile.Operates operator.opcodes code) :
    code.Climbs method catalog floor (low + 2) (low + 1) := by
  -- One opcode takes both operands, and a complement may follow it.
  have first {opcode : Opcode} {rest : List Opcode} (isList : operator.opcodes = opcode :: rest)
      (two : ∀ complete,
        Climbs (.plain opcode complete) method catalog floor (low + 2) (low + 1))
      (ones : ∀ other, other ∈ rest -> other = .not ∨ other = .neg ∨ other = .bitNot) :
      code.Climbs method catalog floor (low + 2) (low + 1) := by
    rw [isList] at operates
    cases operates with
    | next _ complete _ later => exact append (two complete) (unary low later ones)
  cases operator <;> exact first rfl (fun _ => exchange low rfl rfl rfl fun _ => rfl) (by decide)

theorem converts {source target : TypeHash} {code : MarkedCode}
    (converts : Compile.Converts source target code) :
    code.Climbs method catalog floor (low + 1) (low + 1) := by
  cases converts with
  | same | reference => exact empty
  | number => exact exchange low rfl rfl rfl fun _ => rfl

theorem toNat_count (few : count < 256) : count.toUInt8.toNat = count :=
  UInt8.toNat_ofNat_of_lt few

theorem loadElement (few : count < 256) :
    Climbs (.single (.withByte .loadElement count.toUInt8 rfl)) method catalog floor
      (low + 1 + count) (low + 1) := by
  refine exchange low ?_ rfl rfl fun _ => rfl
  change low + (count.toUInt8.toNat + 1) = _
  rw [toNat_count few, Nat.add_assoc, Nat.add_comm 1]

theorem storeElement (few : count < 256) :
    Climbs (.single (.withByte .storeElement count.toUInt8 rfl)) method catalog floor
      (low + 1 + count + 1) low := by
  refine exchange low ?_ rfl rfl fun _ => rfl
  change low + (count.toUInt8.toNat + 2) = _
  rw [toNat_count few]
  omega

theorem newArray (few : count < 256) (index : UInt16) :
    Climbs (.single (.withCount .newArray index count.toUInt8 rfl)) method catalog floor
      (low + count) (low + 1) := by
  refine exchange low ?_ rfl rfl fun _ => rfl
  change low + count.toUInt8.toNat = _
  rw [toNat_count few]

theorem new (few : count < 256) (type constructor : UInt16) :
    Climbs (.single (.new type constructor count.toUInt8)) method catalog floor
      (low + count) (low + 1) := by
  refine call low true (.inl rfl) ?_ rfl rfl fun _ => rfl
  change low + count.toUInt8.toNat = _
  rw [toNat_count few]

end MarkedCode.Climbs

/-! ## Calls -/

variable {surroundings : Surroundings} {origin : Catalog} {depth taken : Nat} {finished : Body}
  {operation : Operation} {method : CompiledMethod}

theorem Compile.Obtains.rank_arrayType {element : TypeHash}
    (obtained : Obtains surroundings origin depth finished (arrayType info)
      (element, rank)) : rank < 256 := by
  obtain ⟨_, _, _, _, runs, _⟩ := obtained.run
  unfold arrayType at runs
  cases typed : info.type with rw [typed] at runs
  | none => cases runs
  | some descriptor =>
    cases descriptor with
    | array =>
      obtain ⟨_, _, _, runs⟩ := ok_of_bind runs
      obtain ⟨closed, second, _, given⟩ := ok_of_bind runs
      cases closed with
      | none => cases given
      | some =>
        cases given
        exact UInt8.toNat_lt _
    | _ => cases runs

/-- The call of a host method takes its arguments and the object it is called
on, unless it is static. -/
theorem Compile.takes_hostOpcode (entry : MethodEntry) (index : UInt16) (count : UInt8)
    (isOpcode : hostOpcode entry = opcode) (complete : opcode.operandSize = 3) :
    (opcode = .callStatic ∨ opcode = .callVirtual ∨ opcode = .callMethod)
      ∧ (Instruction.withCount opcode index count complete).takes
        = (!entry.isStatic).toNat + count.toNat := by
  unfold hostOpcode at isOpcode
  cases static : entry.isStatic with
  | true =>
    rw [if_pos static] at isOpcode
    subst isOpcode
    exact ⟨.inl rfl, (Nat.zero_add _).symm⟩
  | false =>
    rw [if_neg (static ▸ Bool.false_ne_true)] at isOpcode
    split at isOpcode
    · subst isOpcode
      exact ⟨.inr (.inl rfl), Nat.add_comm _ 1⟩
    · subst isOpcode
      exact ⟨.inr (.inr rfl), Nat.add_comm _ 1⟩

theorem Operation.gain_of_producesValue
    (produces : operation.producesValue = true) : operation.gain = 1 := by
  cases operation with
  | invocation => exact congrArg Bool.toNat produces
  | _ => rfl

theorem Compile.gain_of_producesNothing {code : MarkedCode}
    (shape : Translates surroundings origin finished depth taken (.shape operation) code)
    (isInvocation : operation.isInvocation = true)
    (producesNothing : operation.producesValue = false) : operation.gain = 0 := by
  cases operation with
  | invocation => exact congrArg Bool.toNat producesNothing
  | parenthesized => cases shape
  | _ => cases isInvocation

theorem Operation.initialized?_member (info : Info) (form : MemberForm)
    (receiver : Option Operation) (symbol : MemberSymbol) :
    (member info form receiver symbol).initialized?
      = if Compile.isImplicit receiver then some symbol else none := by
  cases receiver with
  | none => rfl
  | some operand => cases operand <;> rfl

theorem Compile.SimplePlace.not_ownMember {origin : MethodOrigin}
    (found : SimplePlace origin.surroundings origin.catalog origin.finished depth target place)
    (own : origin.IsOwnMember target) : False := by
  rcases own with ⟨symbol, initialized, onInstance⟩
  cases found with
  | parameter | localVariable => cases initialized
  | @staticMember _ access _ _ _ found static =>
    rw [Operation.initialized?_member] at initialized
    split at initialized
    · cases initialized
      rw [onInstance depth access found] at static
      cases static
    · cases initialized

theorem Compile.length_of_spills {operations : List Operation} {slots : List UInt16}
    {code : MarkedCode}
    (translates : Translates surroundings origin finished depth taken (.spills operations slots)
      code) :
    slots.length = operations.length := by
  induction operations generalizing taken slots code with
  | nil =>
    cases translates
    rfl
  | cons _ _ ih =>
    cases translates with
    | spill _ _ later => exact congrArg (· + 1) (ih later)

namespace CompiledMethod.Encodes

variable {method : CompiledMethod} {origin : MethodOrigin} {catalog : Catalog}
  (encodes : method.Encodes origin.surroundings origin.catalog origin.symbol origin.operation
    origin.finished origin.code)
  (floor low : Nat) {index : UInt16} {count : UInt8} {entry : MethodEntry} {high : Nat}
  {code : MarkedCode}

include encodes

theorem climbs_hostCall (complete : opcode.operandSize = 3)
    (isCall : opcode = .callStatic ∨ opcode = .callVirtual ∨ opcode = .callMethod)
    (present : origin.finished.emitter.pool.Has index.toNat (.hash entry.hash))
    (known : entry.IsKnown catalog)
    (takes : low + (Instruction.withCount opcode index count complete).takes = high) :
    MarkedCode.Climbs (.single (.withCount opcode index count complete)) method catalog floor high
      (low + (catalog.returns entry.hash).toNat) := by
  have kept : (method.hash? ((Instruction.withCount opcode index count complete).wordAt 0).toNat
      >>= catalog.method?).map MethodEntry.returnsValue = some (catalog.returns entry.hash) := by
    rw [Instruction.wordAt_withCount, encodes.hash?_of_has present]
    exact known.map_returnsValue
  rcases isCall with rfl | rfl | rfl <;>
    exact .call low (catalog.returns entry.hash) (.inl kept) takes rfl rfl fun _ => rfl

theorem climbs_callMethod
    (present : origin.finished.emitter.pool.Has index.toNat (.hash entry.hash))
    (known : entry.IsKnown catalog) (returns : catalog.returns entry.hash = keep) :
    MarkedCode.Climbs (.single (.withCount .callMethod index count rfl)) method catalog floor
      (low + 1 + count.toNat) (low + keep.toNat) := by
  rw [← returns]
  refine encodes.climbs_hostCall floor low rfl (.inr (.inr rfl)) present known ?_
  change low + (count.toNat + 1) = _
  rw [Nat.add_comm count.toNat, Nat.add_assoc]

/-- A call takes its arguments, below them its receiver if it has one, and leaves
what its target returns. -/
theorem climbs_calls (isThere : target.IsThere method catalog) (onObject : target.InvokesReceiver)
    (calls : Compile.Calls origin.finished.emitter.pool target count code) :
    code.Climbs method catalog floor (low + (Compile.takesReceiver target).toNat + count.toNat)
      (low + (target.returnsValue catalog origin.symbol origin.finished.callees).toNat) := by
  cases calls with
  | self => exact .call low _ (.inl (congrArg some encodes.returnsValue)) rfl rfl rfl fun _ => rfl
  | declared =>
    have found := List.getElem?_eq_getElem isThere
    refine .call low _ (.inl ?_) rfl rfl rfl fun _ => rfl
    rw [CallTarget.returnsValue, ← encodes.callees, found]
    exact congrArg (Option.map CompiledMethod.returnsValue) found
  | delegate _ count invokes =>
    refine .call low _ (.inr rfl) ?_ rfl rfl fun _ => rfl
    rw [Compile.takesReceiver, onObject invokes]
    change low + (count.toNat + 1) = low + 1 + count.toNat
    omega
  | host entry _ count index _ present =>
    have ⟨isCall, takes⟩ := Compile.takes_hostOpcode entry index count rfl
      (Compile.operandSize_hostOpcode entry)
    refine encodes.climbs_hostCall floor low _ isCall present isThere ?_
    rw [takes, ← Nat.add_assoc]
    rfl

/-- The code of every part of a typed tree leads between the heights that belong
to its task.  The induction is on the translation, with one case for each of its
rules. -/
theorem climbs_of_translates (coherent : origin.catalog.Coherent)
    (grown : origin.finished.workspace.catalog.Grows catalog) {depth taken floor low : Nat}
    (translates : Compile.Translates origin.surroundings origin.catalog origin.finished depth taken
      task code) (typed : code.EachMark (origin.IsTyped catalog initializers))
    (flat : initializers = false -> depth = 0)
    (raises : origin.Raises catalog initializers depth floor low high task) :
    code.Climbs method catalog floor low high := by
  induction translates generalizing floor low high with
  | kept _ inner =>
    have produces := typed.1.1.resolve_right fun nothing => ValueUse.noConfusion nothing.1
    refine .expression (inner typed.2 flat ⟨?_, typed.1.2⟩) raises
    rw [Operation.gain_of_producesValue produces]
    rfl
  | dropped _ produces inner =>
    refine .expression (.append (inner typed.2.1 flat ⟨?_, typed.1.2⟩) (.pop 0)) raises
    rw [Operation.gain_of_producesValue produces]
  | droppedNothing shape producesNothing inner =>
    have isInvocation := (typed.1.1.resolve_left (producesNothing ▸ Bool.false_ne_true)).2
    refine .expression (inner typed.2 flat ⟨?_, typed.1.2⟩) raises
    rw [Compile.gain_of_producesNothing shape isInvocation producesNothing]
    rfl
  | @assignment _ _ _ _ _ _ _ _ inner =>
    refine .expression (inner typed.2 flat (.inl ⟨?_, (Nat.zero_add _).symm⟩)) raises
    cases initializers with
    | false => exact .inl (flat rfl)
    | true => exact .inr (typed.1.2.2 rfl)
  | compoundAssignment _ inner | parenthesized _ inner =>
    exact .expression (inner typed.2 flat (Nat.zero_add _).symm) raises
  | literal _ loads =>
    rw [raises.1]
    exact .literal _ loads
  | parameter | delegateCreation =>
    rw [raises.1]
    exact .exchange _ rfl rfl rfl fun _ => rfl
  | localVariable =>
    rw [raises.1]
    exact .getLocal _ _
  | staticMember _ static loads =>
    rw [raises.1]
    exact .loadStatic _ static loads
  | instanceMember _ onInstance _ loads inner =>
    rw [raises.1]
    exact .append (inner typed.1 flat rfl) (.loadMember _ onInstance loads)
  | element _ few _ _ first second =>
    rw [raises.1]
    exact .append (first typed.1 flat rfl)
      (.append (second typed.2.1 flat rfl) (.loadElement _ few))
  | binary _ _ operates first second =>
    rw [raises.1]
    exact .append (first typed.1 flat rfl)
      (.append (second typed.2.1 flat rfl) (.binaryOperator _ operates))
  | unary _ operates inner =>
    rw [raises.1]
    exact .append (inner typed.1 flat rfl) (.unary _ operates (by cases ‹UnaryOperator› <;> decide))
  | conversion _ _ _ converts inner =>
    rw [raises.1]
    exact .append (inner typed.1 flat rfl) (.converts _ converts)
  | conditional _ _ _ first second third =>
    rw [raises.1]
    exact .append (first typed.1 flat rfl)
      (.branch (second typed.2.1 flat rfl) (third typed.2.2 flat rfl))
  | call found without few _ calls first =>
    have ⟨sameType, onObject⟩ := raises.2.1 _ _ found
    have called := encodes.climbs_calls floor low
      (encodes.isThere_target coherent grown found) onObject calls
    rw [without, MarkedCode.Climbs.toNat_count few, ← sameType] at called
    rw [raises.1]
    exact .append (first typed.1 flat rfl) called
  | callOnReceiver found takes few _ _ calls first second =>
    have ⟨sameType, onObject⟩ := raises.2.1 _ _ found
    have called := encodes.climbs_calls floor low
      (encodes.isThere_target coherent grown found) onObject calls
    rw [takes, MarkedCode.Climbs.toNat_count few, ← sameType] at called
    rw [raises.1]
    exact .append (first typed.1 flat rfl) (.append (second typed.2.1 flat rfl) called)
  | interpolation isBuilder _ lengths holes _ _ _ isTake takes inner =>
    have builds := raises.2.1 _ _ isBuilder
    have known := (Compile.Obtains.builderMethod coherent isTake).grow grown
    have taken := (builds.parts _ _ _ _ isTake).trans (decide_eq_true rfl)
    rw [raises.1]
    refine .append (.append (.loads low lengths) (.append (.loads (low + 1) holes)
      (.call low true (.inl rfl) rfl rfl rfl fun _ => rfl))) ?_
    exact .append (inner typed.2.1 flat ⟨Nat.le_add_left 1 low, rfl, builds⟩)
      (encodes.climbs_callMethod floor low takes known taken)
  | newArray found _ _ first =>
    rw [raises.1]
    exact .append (first typed.1 flat rfl) (.newArray _ found.rank_arrayType _)
  | newVector _ length _ _ inner =>
    rw [raises.1]
    exact .append (.loads _ length.2) (.append (.exchange low rfl rfl rfl fun _ => rfl)
      (inner typed.2.2 flat ⟨Nat.le_add_left _ _, rfl⟩))
  | newSizedVector _ _ _ _ first second =>
    rw [raises.1]
    exact .append (first typed.1 flat rfl) (.append (.exchange low rfl rfl rfl fun _ => rfl)
      (second typed.2.2 flat ⟨Nat.le_add_left _ _, rfl⟩))
  | objectCreation _ few _ _ _ initializes first second =>
    rw [raises.1]
    refine .append (first typed.1 flat rfl) (.append (.new _ few _ _) ?_)
    cases initializers with
    | false =>
      cases show _ = [] from raises.2.2
      cases initializes
      exact .empty
    | true => exact second typed.2.2 nofun ⟨Nat.le_add_left 1 low, rfl, raises.2.2⟩
  | noValues | noAlignments | noSpills =>
    rw [show high = low from raises]
    exact .empty
  | moreValues _ _ first second =>
    refine .append (first typed.1 flat rfl) (second typed.2 flat ?_)
    rw [show high = _ from raises, List.length_cons, Nat.add_comm _ 1, ← Nat.add_assoc]
    rfl
  | noItems =>
    rw [raises.2]
    exact .empty
  | moreItems index _ _ first second =>
    obtain ⟨height, rfl⟩ := Nat.exists_eq_add_of_le' raises.1
    exact .append (.dup height) (.append (.loads _ index.2) (.append (first typed.2.2.1 flat rfl)
      (.append (.exchange (height + 1) rfl rfl rfl fun _ => rfl) (second typed.2.2.2.2 flat raises))))
  | noParts | noEntries =>
    rw [raises.2.1]
    exact .empty
  | textPart found text appends _ inner =>
    obtain ⟨height, rfl⟩ := Nat.exists_eq_add_of_le' raises.1
    have known := (Compile.Obtains.builderMethod coherent found).grow grown
    have silent := (raises.2.2.parts _ _ _ _ found).trans (decide_eq_false (by decide))
    exact .append (.append (.dup height) (.append (.loads _ text)
      (encodes.climbs_callMethod floor (height + 1) appends known silent)))
      (inner typed.2 flat raises)
  | @holePart _ _ _ arguments _ _ count _ _ _ _ _ _ third found _ _ format appends _ first second fourth =>
      obtain ⟨height, rfl⟩ := Nat.exists_eq_add_of_le' raises.1
      have known := (Compile.Obtains.appendHole coherent found).grow grown
      have silent := raises.2.2.holes _ _ _ _ _ _ found
      have formatted : third.Climbs method catalog floor
          (height + 2 + 1 + Compile.alignmentCount arguments) (height + 2 + count.toNat) := by
        rw [found.count_appendHole, ← Nat.add_assoc, ← Nat.add_assoc]
        rcases format with ⟨isNone, rfl⟩ | ⟨specifier, isSome, loads⟩
        · rw [isNone]
          exact .empty
        · rw [isSome]
          exact .loads _ loads
      exact .append (.dup height) (.append (first typed.2.1 flat rfl)
        (.append (second typed.2.2.1 flat rfl) (.append formatted
          (.append (encodes.climbs_callMethod floor (height + 1) appends known silent)
            (fourth typed.2.2.2.2.2 flat raises)))))
  | alignment _ _ first second =>
    refine .append (first typed.1 flat rfl) (second typed.2 flat ?_)
    rw [show high = _ from raises, Compile.alignmentCount, Nat.add_comm _ 1, ← Nat.add_assoc]
    rfl
  | format _ inner | storeParenthesized _ inner | updateParenthesized _ inner =>
    exact inner typed flat raises
  | entry _ _ first second =>
    obtain ⟨height, rfl⟩ := Nat.exists_eq_add_of_le' raises.1
    have own := raises.2.2 _ (.head _)
    have others entry member := raises.2.2 entry (.tail _ member)
    exact .append (.dup height) (.append (first typed.2.1 flat (.inr ⟨rfl, rfl, own⟩))
      (second typed.2.2 flat ⟨raises.1, raises.2.1, others⟩))
  | storeSimple found _ stores inner =>
    rw [(raises.resolve_right fun own => found.not_ownMember own.2.2).2]
    exact .append (inner typed.1 flat rfl) (.keeping _ (.storeSimple · found stores) _)
  | storeImplicit _ onInstance implicit inside _ stores above inner =>
    rcases raises with ⟨outside, _⟩ | ⟨rfl, rfl, _⟩
    · rw [Operation.initialized?_member, if_pos implicit] at outside
      exact outside.elim (absurd · inside) nofun
    · exact .append (inner typed.1 flat rfl)
        (.storesAbove high above (.storeMember high onInstance stores))
  | storeMember _ onInstance explicit _ _ stores above first second =>
    rcases raises with ⟨_, rfl⟩ | ⟨_, _, other, initialized, _⟩
    · exact .append (first typed.1 flat rfl) (.append (second typed.2.1 flat rfl)
        (.storesAbove low above (.storeMember low onInstance stores)))
    · rw [Operation.initialized?_member, explicit] at initialized
      cases initialized
  | storeElement _ few _ _ _ above first second third =>
    rw [(raises.resolve_right fun own => nomatch own.2.2).2]
    exact .append (first typed.1 flat rfl) (.append (second typed.2.1 flat rfl)
      (.append (third typed.2.2.1 flat rfl) (.storesAbove low above (.storeElement low few))))
  | updateSimple found loads _ operates stores inner =>
    rw [show high = _ from raises]
    exact .append (.loadSimple _ found loads) (.append (inner typed.2.1 flat rfl)
      (.append (.binaryOperator _ operates) (.keeping _ (.storeSimple · found stores) _)))
  | updateMember _ onInstance _ _ _ loads _ operates stores above first second =>
      rw [show high = _ from raises]
      exact .append (first typed.1 flat rfl) (.append (.setLocal low _) (.append (.reload low _)
        (.append (.reload _ _) (.append (.loadMember _ onInstance loads)
          (.append (second typed.2.2.2.2.2.1 flat rfl) (.append (.binaryOperator _ operates)
            (.storesAbove low above (.storeMember low onInstance stores))))))))
  | @updateElement _ _ _ _ slot indices slots _ _ _ _ _ _ _ _ _ few _ _ onIndices _ operates above first spilled second =>
      rw [show high = _ from raises]
      have total := Compile.length_of_spills onIndices
      have reloads (height : Nat) : (MarkedCode.reload (slot :: slots)).Climbs method catalog floor
          height (height + 1 + indices.length) := by
        rw [← total, Nat.add_right_comm]
        exact .reload height (slot :: slots)
      exact .append (first typed.1 flat rfl) (.append (.setLocal low slot)
        (.append (spilled typed.2.2.1 flat rfl) (.append (reloads low) (.append (reloads _)
          (.append (.loadElement _ few) (.append (second typed.2.2.2.2.2.2.1 flat rfl)
            (.append (.binaryOperator _ operates)
              (.storesAbove low above (.storeElement low few)))))))))
  | spill _ _ _ first second =>
    rw [show high = low from raises]
    exact .append (first typed.1 flat rfl) (.append (.setLocal _ _) (second typed.2.2 flat rfl))
  | block _ inner =>
    rcases raises with ⟨rfl, rfl, rfl⟩
    exact .statement (inner typed.2 flat ⟨rfl, rfl, rfl⟩)
  | declaration _ _ inner =>
    rcases raises with ⟨rfl, rfl, rfl⟩
    exact .statement (.append (inner typed.2.1 flat rfl) (.setLocal _ _))
  | defaultDeclaration =>
    rcases raises with ⟨rfl, rfl, rfl⟩
    exact .statement (.append (.exchange 0 rfl rfl rfl fun _ => rfl) (.setLocal _ _))
  | returnValue _ inner =>
    rcases raises with ⟨rfl, rfl, rfl⟩
    exact .statement (.append (inner typed.2.1 flat rfl) .returnValue)
  | returnDropped _ inner =>
    rcases raises with ⟨rfl, rfl, rfl⟩
    exact .statement (.append (inner typed.2.1 flat rfl) .returnVoid)
  | returnNothing =>
    rcases raises with ⟨rfl, rfl, rfl⟩
    exact .statement .returnVoid
  | whileLoop _ _ first second =>
    rcases raises with ⟨rfl, rfl, rfl⟩
    exact .statement (.loop (first typed.2.1 flat rfl) (second typed.2.2 flat ⟨rfl, rfl, rfl⟩))
  | onlyIf _ _ _ first second =>
    rcases raises with ⟨rfl, rfl, rfl⟩
    exact .statement (.append (first typed.2.1 flat rfl)
      (.guarded (second typed.2.2 flat ⟨rfl, rfl, rfl⟩)))
  | ifElse _ _ _ _ first second third =>
    rcases raises with ⟨rfl, rfl, rfl⟩
    exact .statement (.append (first typed.2.1 flat rfl)
      (.branch (second typed.2.2.1 flat ⟨rfl, rfl, rfl⟩) (third typed.2.2.2 flat ⟨rfl, rfl, rfl⟩)))
  | expressionStatement _ inner | evaluated _ _ inner =>
    rcases raises with ⟨rfl, rfl, rfl⟩
    exact .statement (inner typed.2 flat rfl)
  | noStatements =>
    rcases raises with ⟨rfl, rfl, rfl⟩
    exact .empty
  | moreStatements _ _ first second =>
    rcases raises with ⟨rfl, rfl, rfl⟩
    exact .append (first typed.1 flat ⟨rfl, rfl, rfl⟩) (second typed.2 flat ⟨rfl, rfl, rfl⟩)
  | statementBody _ _ inner =>
    exact .append (inner typed.1 flat ⟨raises.1, raises.2.1, rfl⟩) .returnVoid
  | valueBody _ _ _ inner => exact .append (inner typed.1 flat rfl) .returnValue
  | effectBody _ _ inner => exact .append (inner typed.1 flat rfl) .returnVoid

end CompiledMethod.Encodes

/-! ## Runs -/

/-- Code that has heights from an empty stack at its start. -/
structure CompiledMethod.Balanced (catalog : Catalog) (heights : Nat -> Nat)
    (method : CompiledMethod) : Prop where
  start : heights 0 = 0
  flows : ∃ instructions, method.Decodes catalog false instructions
    ∧ method.Flows catalog 0 heights 0 instructions

/-- The stack of a frame is as high as its position says, with the results that
it waits for. -/
def Frame.AtHeight (heights : CompiledMethod -> Nat -> Nat) (frame : Frame) (awaited : Nat) :
    Prop :=
  frame.operands.length + awaited = heights frame.method frame.position

theorem CompiledMethod.Balanced.exists_count (balanced : method.Balanced catalog heights)
    (boundary : position ∈ method.chunk.boundaries 0)
    (holds : method.chunk.Holds position instruction.bytes) :
    instruction.takes ≤ heights position ∧ ∃ count, method.Gives catalog instruction count
        ∧ ∀ next, next ∈ instruction.successors position ->
          heights next + instruction.takes = heights position + count := by
  rcases balanced.flows with ⟨instructions, decodes, flows⟩
  rcases decodes.exists_instruction boundary with ⟨placed, member⟩
  cases holds.instruction_eq (decodes.holds member)
  rcases flows position instruction member with ⟨found, agree⟩
  exact ⟨Nat.le_of_add_left_le found, agree⟩

theorem Frame.Upkeep.of_balanced (heights : CompiledMethod -> Nat -> Nat) :
    Frame.Upkeep catalog (fun method => method.Balanced catalog (heights method))
      (Frame.AtHeight heights) where
  decodes := fun _ balanced => balanced.flows.imp fun _ found => found.1
  enter := by
    intro frame balanced empty atStart
    rw [Frame.AtHeight, empty, atStart, balanced.start]
    rfl
  next := by
    intro before after instruction balanced boundary holds fine plain sameMethod goes exchange
    rcases balanced.exists_count boundary holds with ⟨_, count, gives, agree⟩
    rcases exchange with ⟨taken, pushed, rest, takes, pushes, isBefore, isAfter⟩
    have height := agree after.position goes
    rw [gives.eq_of_plain plain, ← fine, isBefore, List.length_append] at height
    rw [Frame.AtHeight, sameMethod, isAfter, List.length_append]
    omega
  call := by
    intro before after instruction keep balanced boundary holds fine sameMethod goes removal kept
    rcases balanced.exists_count boundary holds with ⟨_, count, gives, agree⟩
    rcases removal with ⟨taken, takes, isBefore⟩
    have height := agree after.position goes
    rw [gives.eq_of_keeps? kept, ← fine, isBefore, List.length_append] at height
    rw [Frame.AtHeight, sameMethod]
    omega
  give := by
    intro frame value _ fine
    exact fine

theorem CompiledMethod.Throughout.mono (throughout : method.Throughout Stronger)
    (implies : ∀ method, Stronger method -> Weaker method) : method.Throughout Weaker := by
  induction throughout with
  | intro here _ _ callees lambdas => exact .intro (implies _ here) callees lambdas

namespace Machine

variable {host : Host} {machine reached : Machine} {heights : CompiledMethod -> Nat -> Nat}

/-- Code without calls of function values counts on nothing of them. -/
theorem agrees_of_plain {Good : CompiledMethod -> Prop} (plain : ∀ method, Good method ->
      ∃ instructions, method.Decodes host.catalog false instructions ∧ ∀ instruction,
        instruction ∈ instructions -> instruction.opcode ≠ .invokeDelegate)
    (inOrder : ∀ Excused, machine.InOrder Excused Good fun _ _ => True)
    (orderly : host.natives.Orderly) (reaches : Reaches host machine reached) :
    reached.Agrees host.catalog Fine := by
  intro frame ref arguments keep after isControl invokes
  have upkeep : Frame.Upkeep host.catalog Good fun _ _ => True :=
    .of_decodes fun method good => (plain method good).imp fun _ => And.left
  have here := (InOrder.reached orderly upkeep (fun _ _ _ _ _ _ _ _ _ _ => trivial) (inOrder _)
    reaches).control
  rw [isControl] at here
  obtain ⟨instructions, decodes, others⟩ := plain _ here.code.here
  obtain ⟨instruction, member⟩ := decodes.exists_instruction here.boundary
  have isByte := Option.some.inj ((decodes.holds member).1.symm.trans invokes)
  have isOpcode := congrArg Opcode.ofByte? isByte
  rw [Opcode.ofByte?_toByte, Opcode.ofByte?_toByte] at isOpcode
  exact absurd (Option.some.inj isOpcode) (others instruction (Instruction.mem_of_mem_place member))

variable (inOrder : ∀ Excused, machine.InOrder Excused
    (fun method => method.Balanced host.catalog (heights method)) (Frame.AtHeight heights))
  (orderly : host.natives.Orderly) (agrees : ∀ reached, Reaches host machine reached ->
    reached.Agrees host.catalog (Frame.AtHeight heights))

include inOrder orderly agrees

/-- No run from balanced code takes more from a stack than there is, as long as
the function values that it calls return what the code counts on and the native
functions make up no such failure. -/
theorem no_underflow (ends : Ends host machine ending) :
    ending.result ≠ .error (.invalidBytecode offset "stack underflow") := by
  intro fails
  have accounted := InOrder.accounted orderly (.of_balanced heights) agrees (inOrder _) ends fails
  rcases accounted trivial with ⟨last, _, frame, instruction, _, here, holds, blamed⟩
  rcases blamed with ⟨short, _⟩ | ⟨_, _, slot, other⟩
  · have enough := (here.code.here.exists_count here.boundary holds).1
    have height : frame.operands.length + 0 = heights frame.method frame.position := here.fine
    exact short (by omega)
  · -- The other complaint about code begins with another letter.
    injection other with _ text
    have letters := congrArg String.toList text
    rw [String.toList_append, String.toList_append] at letters
    cases letters

end Machine

/-! ## Everything that a source compiles to -/

/-- The code of a method whose expressions are typed has heights that balance its
expressions and statements. -/
theorem CompiledMethod.Encodes.balanced {origin : MethodOrigin}
    (encodes : method.Encodes origin.surroundings origin.catalog origin.symbol origin.operation
      origin.finished origin.code) (coherent : origin.catalog.Coherent)
    (grown : origin.finished.workspace.catalog.Grows catalog)
    (typed : origin.code.EachMark (origin.IsTyped catalog initializers)) :
    ∃ heights, method.Balanced catalog heights
      ∧ origin.code.Heights method catalog 0 heights 0 := by
  have climbs := encodes.climbs_of_translates coherent grown encodes.translates typed
    (fun _ => rfl) ⟨rfl, rfl, rfl⟩
  rcases climbs encodes.fits 0 with ⟨heights, start, _, inCode⟩
  have decodes : method.Decodes catalog false _ := encodes.decodes coherent grown nofun
  exact ⟨heights, ⟨start, _, decodes, inCode.flows⟩, inCode⟩

/-- A method that was compiled from a body, under a catalog that a later one has
grown from.  If the expressions of the body are typed there are heights for the
code, from an empty stack on. -/
def CompiledMethod.BalancedIfTyped (source : Source) (catalog : Catalog) (initializers : Bool)
    (method : CompiledMethod) : Prop :=
  ∃ origin : MethodOrigin, source.HasBody origin.symbol origin.operation
    ∧ method.Encodes origin.surroundings origin.catalog origin.symbol origin.operation
      origin.finished origin.code
    ∧ origin.finished.workspace.catalog.Grows catalog
    ∧ (origin.code.EachMark (origin.IsTyped catalog initializers) -> ∃ heights,
      method.Balanced catalog heights ∧ origin.code.Heights method catalog 0 heights 0)

/-- The call of a function that is put on a heap. -/
def CompiledFunction.called (heap : Heap) (arguments : List Value) (function : CompiledFunction) :
    Machine :=
  .calling (heap.addFunction function.cell).1 arguments (heap.addFunction function.cell).2

/-- A call of a function in which all code has heights, the native functions are
orderly, and function values return what the code that calls them counts on. -/
structure CompiledFunction.Keeps (host : Host) (heights : CompiledMethod -> Nat -> Nat)
    (heap : Heap) (arguments : List Value) (function : CompiledFunction) : Prop where
  natives : host.natives.Orderly
  code : function.method.Throughout fun method => method.Balanced host.catalog (heights method)
  functions : heap.Throughout fun method => method.Balanced host.catalog (heights method)
  agrees : ∀ reached, Machine.Reaches host (function.called heap arguments) reached ->
    reached.Agrees host.catalog (Frame.AtHeight heights)

/-! ## A sample of typed code -/

theorem Code.eachMark_of_parts {Mark : Type} {Property : Mark -> Prop} {code : Code Mark}
    (each : ∀ part, part ∈ code.parts offset -> Property part.2.1) :
    code.EachMark Property := by
  induction code generalizing offset with
  | empty | single => trivial
  | append _ _ inFirst inSecond | branch _ _ inFirst inSecond | loop _ _ inFirst inSecond =>
    exact ⟨inFirst fun part member => each part (List.mem_append_left _ member),
      inSecond fun part member => each part (List.mem_append_right _ member)⟩
  | guarded _ inTrue => exact inTrue each
  | marked _ _ inPart =>
    exact ⟨each _ (.head _), inPart fun part member => each part (.tail _ member)⟩

/-- Code with certain marks and without calls of function values. -/
structure MarkedCode.Plain (marks : List CodeMark) (code : MarkedCode) : Prop where
  marks : ∀ offset, (code.parts offset).map (·.2.1) = marks
  opcodes : ∀ instruction, instruction ∈ code.instructions ->
    instruction.opcode ≠ .invokeDelegate

namespace MarkedCode.Plain

variable {mark : CodeMark} {marks : List CodeMark} {pool : ConstantPool}
  {first second code : MarkedCode}

theorem eachMark (plain : code.Plain marks) (each : ∀ mark, mark ∈ marks -> Property mark) :
    code.EachMark Property :=
  Code.eachMark_of_parts fun _ member => each _ (plain.marks 0 ▸ List.mem_map_of_mem member)

theorem exists_part (plain : code.Plain marks) (member : mark ∈ marks) :
    ∃ start part, (start, mark, part) ∈ code.parts 0 := by
  obtain ⟨⟨start, _, part⟩, inside, rfl⟩ := List.mem_map.mp (plain.marks 0 ▸ member)
  exact ⟨start, part, inside⟩

theorem single {instruction : Instruction} (other : instruction.opcode ≠ .invokeDelegate) :
    Plain [] (.single instruction) :=
  ⟨fun _ => rfl, fun _ member => List.mem_singleton.mp member ▸ other⟩

theorem empty : Plain [] .empty :=
  ⟨fun _ => rfl, nofun⟩

theorem append (isFirst : first.Plain before) (isSecond : second.Plain after) :
    (first ++ second).Plain (before ++ after) where
  marks := fun offset => List.map_append.trans
    (congrArg₂ (· ++ ·) (isFirst.marks offset) (isSecond.marks _))
  opcodes := fun instruction member =>
    (List.mem_append.mp member).elim (isFirst.opcodes instruction) (isSecond.opcodes instruction)

theorem behind (isFirst : first.Plain []) (isSecond : second.Plain marks) :
    (first ++ second).Plain marks :=
  append isFirst isSecond

theorem before (isFirst : first.Plain marks) (isSecond : second.Plain []) :
    (first ++ second).Plain marks :=
  marks.append_nil ▸ append isFirst isSecond

theorem marked (plain : code.Plain marks) : Plain (mark :: marks) (.marked mark code) :=
  ⟨fun offset => congrArg (mark :: ·) (plain.marks offset), plain.opcodes⟩

theorem loads {constant : Constant} (loads : Emit.Loads pool constant code) : code.Plain [] := by
  rcases loads with ⟨_, _, rfl⟩ | ⟨_, _, rfl⟩
  · exact single nofun
  · exact single nofun

theorem store {access : MemberAccess} (stores : (StorePlace.member access).StoreCode pool code) :
    code.Plain [] := by
  obtain ⟨_, _, rfl⟩ := stores
  rcases access with _ | ⟨_, _ | _, _, _⟩ | _
  all_goals exact single nofun

end MarkedCode.Plain

namespace Portrait

open Compile
open MarkedCode (Plain)

/-- The marks in the code of the sample, from the outside in. -/
def marks : List CodeMark :=
  [.expression .discarded body, .expression .kept call, .expression .kept creation,
    .expression .kept one]

section

variable {built origin : Catalog} {outer : Surroundings} {finished : Body} {depth low : Nat}
  {code : MarkedCode}

theorem plain_one
    (translates : Translates outer origin finished depth low (.value .kept one) code) :
    code.Plain [.expression .kept one] := by
  cases translates with
  | kept shape =>
    cases shape with
    | literal isLiteral loads =>
      cases isLiteral
      exact .marked (.loads loads)

theorem plain_creation
    (translates : Translates outer origin finished depth low (.value .kept creation) code) :
    code.Plain [.expression .kept creation, .expression .kept one] := by
  cases translates with
  | kept shape =>
    cases shape with
    | objectCreation _ _ operands _ _ initializes =>
      cases operands
      refine .marked (.behind .empty (.behind (.single nofun) ?_))
      cases initializes with
      | entry store later =>
        cases later
        refine .behind (.single nofun) (.before ?_ .empty)
        cases store with
        | storeSimple found operand stores =>
          cases found
          exact .before (plain_one operand) (.store stores)
        | storeImplicit _ _ _ _ operand stores above =>
          cases above
          exact .before (plain_one operand) (.store stores)
        | storeMember _ _ explicit => cases explicit

variable (isBuilt : Catalog.build types = .ok built) (same : built.SameRegistered origin)

include isBuilt same

theorem plain_call
    (translates : Translates outer origin finished depth low (.value .kept call) code) :
    code.Plain [.expression .kept call, .expression .kept creation, .expression .kept one] := by
  have eq_of_obtains {target : CallTarget}
      (found : Obtains outer origin depth finished (callTarget outer true called 0) target) :
      target = .host name :=
    found.eq_of_leads fun stage grown =>
      ⟨stage, leads_callTarget isBuilt (same.trans grown) outer⟩
  cases translates with
  | kept shape =>
    refine .marked ?_
    cases shape with
    | call found without =>
      cases eq_of_obtains found
      cases without
    | callOnReceiver found _ _ operand operands calls =>
      cases eq_of_obtains found
      cases operands
      refine .before (plain_creation operand) (.behind .empty ?_)
      cases calls with
      | delegate _ _ invokes => cases invokes
      | host => exact .single nofun

theorem plain_body
    (translates : Translates outer origin finished depth low (.body false body) code) :
    code.Plain marks := by
  cases translates with
  | statementBody asStatement => cases asStatement
  | effectBody _ inner =>
    cases inner with
    | droppedNothing _ producesNothing => cases producesNothing
    | dropped shape =>
      refine .before (.marked (.before ?_ (.single nofun))) (.single nofun)
      cases shape with
      | interpolation _ _ lengths holes _ _ appended =>
        refine .behind (.behind (.loads lengths) (.behind (.loads holes) (.single nofun)))
          (.before ?_ (.single nofun))
        cases appended with
        | holePart found operand alignment format _ later =>
          cases alignment
          cases later
          refine .behind (.single nofun) (.before (plain_call isBuilt same operand)
            (.behind .empty (.behind ?_ (.behind (.single nofun) .empty))))
          rcases format with ⟨_, rfl⟩ | ⟨_, _, loads⟩
          · exact .empty
          · exact .loads loads

end

section

variable {built : Catalog} (isBuilt : Catalog.build types = .ok built)

include isBuilt

theorem method?_name : (closing built).method? name.hash = some name := by
  have declared := @types_shape _ isBuilt { catalog := built } (.refl built)
  have registered : (closing built).methods[name.hash]? = some name :=
    (Catalog.coherent_build isBuilt).methods _ _ declared name (.head _)
  rw [Catalog.method?, registered]

theorem returns_appended : (closing built).returns appended.hash = false := by
  have unlisted : ¬ appended.hash
      ∈ (Catalog.directoryOf (SystemTypes.definitions ++ types)).called := by
    decide +kernel
  have absent := mt ((Catalog.lists_build isBuilt).called appended.hash).mp unlisted
  rw [Std.HashMap.contains_eq_isSome_getElem?, Bool.not_eq_true, Option.isSome_eq_false_iff,
    Option.isNone_iff_eq_none] at absent
  have found : (closing built).closedMethods[appended.hash]? = some appended :=
    Std.HashMap.getElem?_insert_self
  rw [Catalog.returns, Catalog.method?, found, show (closing built).methods = built.methods from rfl,
    absent]
  rfl

theorem asked_closing : built.Asked (closing built) := by
  have asked : built.Asked _ := Catalog.Asked.nothing.closeMethod append [.string]
  rwa [lookup_append ((Catalog.holds_build isBuilt).closedMethods _)] at asked

variable {origin : MethodOrigin}

theorem buildsWith (grown : origin.finished.workspace.catalog.Grows (closing built))
    (coherent : origin.catalog.Coherent) : origin.BuildsWith (closing built) builder where
  parts := fun _ _ _ _ obtained => obtained.returns_builderMethod coherent
    (@types_builder _ isBuilt { catalog := closing built } ⟨rfl, rfl, rfl, rfl, rfl⟩) grown
  holes := by
    intro depth value arguments entry shape count obtained
    obtain ⟨_, _, sound, _, runs, _, _, extending⟩ := obtained.run
    obtain ⟨_, _, _, _, _, _, _, _, stored⟩ := appendHole_cases sound runs
    rcases inserted_or_found ((extending.catalog.trans grown).closedMethods _ _ stored)
      with ⟨_, rfl⟩ | earlier
    · exact returns_appended isBuilt
    · cases ((Catalog.holds_build isBuilt).closedMethods _).symm.trans earlier

theorem isTyped (grown : origin.finished.workspace.catalog.Grows (closing built))
    (coherent : origin.catalog.Coherent) (same : built.SameRegistered origin.catalog)
    (member : mark ∈ marks) : origin.IsTyped (closing built) true mark := by
  rcases member with _ | ⟨_, _ | ⟨_, _ | ⟨_, _ | ⟨_, ⟨⟩⟩⟩⟩⟩
  · refine ⟨.inl rfl, fun depth other obtained => ?_, trivial⟩
    cases obtained.eq_of_leads fun stage grows =>
      ⟨stage, leads_textBuilder isBuilt (same.trans grows)⟩
    exact buildsWith isBuilt grown coherent
  · refine ⟨.inl rfl, fun depth target obtained => ?_, trivial⟩
    cases obtained.eq_of_leads fun stage grows =>
      ⟨stage, leads_callTarget isBuilt (same.trans grows) origin.surroundings⟩
    refine ⟨?_, nofun⟩
    rw [CallTarget.returnsValue, Catalog.returns, method?_name isBuilt]
    rfl
  · refine ⟨.inl rfl, trivial, fun entry member => ?_⟩
    cases List.mem_singleton.mp member
    refine ⟨side, rfl, fun depth access obtained => ?_⟩
    cases obtained.eq_of_leads fun stage grows =>
      ⟨stage, leads_writableMember isBuilt (same.trans grows)⟩
    rfl
  · exact ⟨.inl rfl, trivial, trivial⟩

theorem sameRegistered {method : CompiledMethod}
    (encodes : method.Encodes origin.surroundings origin.catalog origin.symbol origin.operation
      origin.finished origin.code)
    (grown : origin.finished.workspace.catalog.Grows (closing built)) :
    built.SameRegistered origin.catalog :=
  (asked_closing isBuilt).grows.toSameRegistered.trans
    (encodes.sound.origin.trans grown).toSameRegistered.symm

/-- The code of the method, whatever was compiled around it, is typed and calls no
function values. -/
theorem plain_of_encodes {method : CompiledMethod}
    (hasBody : source.HasBody origin.symbol origin.operation)
    (encodes : method.Encodes origin.surroundings origin.catalog origin.symbol origin.operation
      origin.finished origin.code)
    (grown : origin.finished.workspace.catalog.Grows (closing built)) :
    origin.code.Plain marks ∧ origin.code.EachMark (origin.IsTyped (closing built) true)
      ∧ method.Decodes (closing built) false origin.code.instructions := by
  have same := sameRegistered isBuilt encodes grown
  have coherent := (encodes.sound.origin.trans grown).coherent_before
    ((asked_closing isBuilt).grows.coherent (Catalog.coherent_build isBuilt))
  obtain ⟨isSymbol, isBody⟩ := hasBody.of_singleton
    (fun name operation => name = symbol ∧ operation = body) ⟨rfl, rfl⟩ (by
      rintro _ _ _ ⟨_, rfl⟩ member
      cases member)
  have translates := encodes.translates
  rw [isSymbol, isBody] at translates
  have plain := plain_body isBuilt same translates
  exact ⟨plain, plain.eachMark fun _ member => isTyped isBuilt grown coherent same member,
    encodes.decodes coherent grown nofun⟩

end

/-- Whatever heights its code has, the function of the sample keeps them when it
is called on an empty heap. -/
theorem keeps {built : Catalog} {function : CompiledFunction} {code : MarkedCode}
    {heights : Nat -> Nat} (lambdas : function.method.lambdas = [])
    (callees : function.method.callees = [])
    (decodes : function.method.Decodes (closing built) false code.instructions)
    (plain : code.Plain marks) (balanced : function.method.Balanced (closing built) heights)
    (arguments : List Value) :
    function.Keeps { catalog := closing built } (fun _ => heights) {} arguments := by
  have throughout {Good : CompiledMethod -> Prop} (good : Good function.method) :
      function.method.Throughout Good :=
    .intro good (callees ▸ nofun) (lambdas ▸ nofun)
  have functions {Good : CompiledMethod -> Prop} : ({} : Heap).Throughout Good :=
    fun _ _ member => absurd member (Array.not_mem_empty _)
  have orderly : ({ catalog := closing built } : Host).natives.Orderly := Natives.orderly_silent
  refine ⟨orderly, throughout balanced, functions, fun reached reaches => ?_⟩
  exact Machine.agrees_of_plain (fun _ good => good)
    (fun _ => .calling (throughout ⟨_, decodes, plain.opcodes⟩) functions arguments) orderly reaches

end Portrait

section

variable {definitions : List TypeDefinition} {built later : Catalog} {source : Source}
  {id : SyntaxId} {before after : Workspace} {function : CompiledFunction}

theorem Make.balancedIfTyped_declaration (isBuilt : Catalog.build definitions = .ok built)
    (asked : built.Asked before.catalog)
    (compiles : Make.declaration source id before = .ok function after)
    (grown : after.catalog.Grows later) (initializers : Bool) :
    function.method.Throughout (CompiledMethod.BalancedIfTyped source later initializers) := by
  have coherent := asked.grows.coherent (Catalog.coherent_build isBuilt)
  refine Make.throughout_declaration (fun body isCoherent grows encodes => ?_) coherent compiles
    grown
  exact ⟨⟨_, _, _, _, _, _⟩, body, encodes, grows, encodes.balanced isCoherent grows⟩

/-- In the code of every body whose expressions are typed each position has a
height that all ways to it agree on.  An expression leaves one value, or none if
it is dropped, and statements begin and end with an empty stack.  So whatever
heights the code of a run keeps, none of its instructions finds fewer values than
it takes. -/
theorem Make.declaration_balanced (isBuilt : Catalog.build definitions = .ok built)
    (asked : built.Asked before.catalog)
    (compiles : Make.declaration source id before = .ok function after)
    (host : Host) (grown : after.catalog.Grows host.catalog) :
    (∀ initializers, function.method.Throughout
        (CompiledMethod.BalancedIfTyped source host.catalog initializers))
      ∧ ∀ (heights : CompiledMethod -> Nat -> Nat) (heap : Heap) (arguments : List Value),
        function.Keeps host heights heap arguments -> ∀ (ending : Ending) (offset : Nat),
          Machine.Ends host (function.called heap arguments) ending ->
          ending.result ≠ .error (.invalidBytecode offset "stack underflow") := by
  refine ⟨balancedIfTyped_declaration isBuilt asked compiles grown, ?_⟩
  intro heights heap arguments keeps ending offset ends
  exact Machine.no_underflow (fun _ => .calling keeps.code keeps.functions arguments) keeps.natives
    keeps.agrees ends

/-- A method with a hole, an object initializer and a virtual call. -/
theorem portrait_balanced : ∃ built function after,
    ∃ heights : Nat -> Nat, Catalog.build Portrait.types = .ok built
      ∧ Make.declaration Portrait.source ⟨1⟩ { catalog := built } = .ok function after
      ∧ function.method.Balanced (Portrait.closing built) heights
      ∧ ∀ arguments ending offset,
        Machine.Ends { catalog := Portrait.closing built } (function.called {} arguments) ending ->
        ending.result ≠ .error (.invalidBytecode offset "stack underflow") := by
  obtain ⟨built, isBuilt⟩ := Portrait.exists_build
  obtain ⟨function, after, compiles, isAfter, lambdas, callees⟩ := Portrait.declaration isBuilt
  obtain ⟨balanced, runs⟩ := Make.declaration_balanced isBuilt .nothing compiles
    { catalog := Portrait.closing built } (isAfter ▸ .refl _)
  obtain ⟨origin, hasBody, encodes, grown, balanced⟩ := (balanced true).here
  obtain ⟨plain, typed, decodes⟩ := Portrait.plain_of_encodes isBuilt hasBody encodes grown
  obtain ⟨heights, balanced, _⟩ := balanced typed
  have keeps := Portrait.keeps lambdas callees decodes plain balanced
  exact ⟨built, function, after, heights, isBuilt, compiles, balanced, fun arguments =>
    runs _ _ arguments (keeps arguments)⟩

end

end OpMachine
