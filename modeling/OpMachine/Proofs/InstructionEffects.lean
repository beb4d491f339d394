import OpMachine.Proofs.Stances

namespace OpMachine

/-!
# What an instruction can do

Every instruction that a method admits takes and pushes as many values as its
operands say, goes on where they say, and calls nothing but what the tables of
the method and the catalog hold; or it fails for a reason that does not lie in
the code.  The only other failure is that the stack holds fewer values than the
instruction takes.

`Stance.Moves` says what can become of the slots and the heap on the way.  Few
instructions write: two store a copy in a slot of the frame, two write elements
of arrays, one loads a function.  All others work with the values they find in
the frame.
-/

namespace Instruction

variable (instruction : Instruction)

/-- The number of values that an instruction takes from the stack. -/
def takes : Nat :=
  match instruction.opcode with
  | .pop | .dup | .setArg | .setLocal | .neg | .not | .bitNot | .convert | .jumpIfFalse
  | .returnValue | .getField | .getProperty | .getPropertyVirtual | .setStaticProperty => 1
  | .add | .sub | .mul | .div | .rem | .bitAnd | .bitOr | .bitXor | .shl | .shr | .eq | .lt | .gt
  | .setField | .setProperty | .setPropertyVirtual => 2
  | .callStatic | .newArray => (instruction.byteAt 2).toNat
  | .callMethod | .callVirtual => (instruction.byteAt 2).toNat + 1
  | .callUnit => (instruction.byteAt 1).toNat
  | .callSelf => (instruction.byteAt 0).toNat
  | .new => (instruction.byteAt 4).toNat
  | .loadElement | .invokeDelegate => (instruction.byteAt 0).toNat + 1
  | .storeElement => (instruction.byteAt 0).toNat + 2
  | _ => 0

/-- The number of values that an instruction pushes itself.  The result of a
call is pushed later. -/
def pushes : Nat :=
  match instruction.opcode with
  | .constant | .constantWide | .pushNull | .pushTrue | .pushFalse | .pushDefault
  | .getArg | .getLocal | .add | .sub | .mul | .div | .rem | .neg | .bitAnd | .bitOr | .bitXor
  | .bitNot | .shl | .shr | .eq | .lt | .gt | .not | .convert | .getField
  | .newArray | .loadElement | .loadDelegate => 1
  | .dup => 2
  | _ => 0

def isCall : Bool :=
  match instruction.opcode with
  | .callStatic | .callMethod | .callVirtual | .callUnit | .callSelf | .new | .invokeDelegate
  | .getProperty | .getPropertyVirtual | .getStaticProperty
  | .setProperty | .setPropertyVirtual | .setStaticProperty => true
  | _ => false

def writesElements : Bool :=
  match instruction.opcode with
  | .newArray | .storeElement => true
  | _ => false

/-- Where the code can go on after an instruction. -/
def successors (position : Nat) : List Nat :=
  match instruction.opcode with
  | .jump | .loop => (instruction.target? position).toList
  | .jumpIfFalse => (position + instruction.size) :: (instruction.target? position).toList
  | .returnValue | .returnVoid => []
  | _ => [position + instruction.size]

/-- The stack after an instruction has taken and pushed its values. -/
def Exchanges (before after : List Value) : Prop :=
  ∃ taken : List Value, ∃ pushed : List Value, ∃ rest,
    taken.length = instruction.takes ∧ pushed.length = instruction.pushes
      ∧ before = taken ++ rest ∧ after = pushed ++ rest

/-- The stack after an instruction has taken its values for a call. -/
def Removes (before after : List Value) : Prop :=
  ∃ taken : List Value, taken.length = instruction.takes ∧ before = taken ++ after

end Instruction

/-- Whether the result of the call that an instruction makes is kept.  What a
function value returns is known to the run only. -/
def CompiledMethod.keeps? (method : CompiledMethod) (catalog : Catalog)
    (instruction : Instruction) : Option Bool :=
  match instruction.opcode with
  | .callStatic | .callMethod | .callVirtual =>
    (method.hash? (instruction.wordAt 0).toNat >>= catalog.method?).map (·.returnsValue)
  | .callUnit => method.callees[(instruction.byteAt 0).toNat]?.map (·.returnsValue)
  | .callSelf => some method.returnsValue
  | .new | .getProperty | .getPropertyVirtual | .getStaticProperty => some true
  | .setProperty | .setPropertyVirtual | .setStaticProperty => some false
  | _ => none

variable {method : CompiledMethod} {catalog : Catalog} {keep : Bool}

theorem CompiledMethod.isCall_of_keeps? (keeps : method.keeps? catalog instruction = some keep) :
    instruction.isCall = true := by
  unfold keeps? at keeps
  unfold Instruction.isCall
  cases named : instruction.opcode <;> rw [named] at keeps <;> first | rfl | cases keeps

theorem CompiledMethod.unplaced_of_value? (method : CompiledMethod)
    (isValue : method.value? index = some value) : value.Unplaced := by
  rcases Option.bind_eq_some_iff.mp isValue with ⟨constant, _, isValue⟩
  cases constant <;> cases isValue <;> trivial

theorem Catalog.unplaced_defaultValue (hash : TypeHash) : (defaultValue hash).Unplaced := by
  unfold defaultValue
  repeat' split
  all_goals trivial

/-- The function that is made from an anonymous function. -/
def CompiledLambda.function (lambda : CompiledLambda) : FunctionCell :=
  ⟨lambda.delegateType, lambda.signature, some lambda.receiver, .compiled lambda.method⟩

/-- The host functions that calls of members can come to. -/
inductive Catalog.Offers (catalog : Catalog) : HostFunction -> Prop
  | method {hash : TypeHash} (found : catalog.method? hash = some entry)
      (isChosen : chosen = entry ∨ ∃ type, chosen = catalog.overriding type entry)
      (isBody : chosen.body = .host function) : Offers catalog function
  | accessor {hash : TypeHash} (found : catalog.property? hash = some entry)
      (isChosen : chosen = entry ∨ ∃ type, chosen = catalog.overridingProperty type entry)
      (isAccessor : chosen.getter = some function
        ∨ ∃ setter, chosen.setter = some setter ∧ setter.function = function) :
      Offers catalog function

/-- The values that fields have whatever their objects hold. -/
def Catalog.Fixes (catalog : Catalog) (value : Value) : Prop :=
  ∃ hash field, catalog.field? hash = some field ∧ field.access.fixed = some value

def Callee.Has : Callee -> Value -> Prop
  | .function _ arguments, value => value ∈ arguments
  | .method _ receiver arguments, value => receiver = some value ∨ value ∈ arguments
  | .host _ call, value => call.Has value

theorem Heap.mem_functions_delegate {heap : Heap}
    (member : cell ∈ (heap.delegate lambda).2.functions) :
    cell ∈ heap.functions ∨ cell = lambda.function := by
  unfold delegate at member
  cases known : heap.delegates[lambda.cell]? with rw [known] at member
  | some => exact .inl member
  | none => exact Array.mem_push.mp member

namespace Stance

/-- The values that an instruction can find in a frame or in a field. -/
def Given (catalog : Catalog) (stance : Stance) (value : Value) : Prop :=
  value ∈ stance.operands ∨ value ∈ stance.arguments ∨ value ∈ stance.locals
    ∨ catalog.Fixes value

/-- What a frame may call: its own method on the same receiver, the methods in
its table without one, host functions of the catalog, and any function. -/
def MayCall (catalog : Catalog) (stance : Stance) : Callee -> Prop
  | .method called receiver _ => called ∈ stance.method.callees ∧ receiver = none
      ∨ called = stance.method
        ∧ receiver = if stance.method.hasReceiver then stance.arguments[0]? else none
  | .host function _ => catalog.Offers function
  | .function _ _ => True

/-- What an instruction that goes on does to the slots and the heap. -/
inductive Moves (catalog : Catalog) (before : Stance) (instruction : Instruction) :
    Stance -> Prop
  | works {operands : List Value} {position : Nat} {heap : Heap}
      (writesNone : instruction.writesElements = false)
      (change : before.heap.Change (before.Given catalog) heap (· ∈ operands)) :
      Moves catalog before instruction { before with operands, position, heap }
  | setsArgument {value : Value} {operands : List Value} {position : Nat}
      (named : instruction.opcode = .setArg) (isStack : before.operands = value :: operands)
      (inside : (instruction.byteAt 0).toNat < before.arguments.size) :
      Moves catalog before instruction
        { before with
          arguments := before.arguments.setIfInBounds (instruction.byteAt 0).toNat
            (before.heap.copied value).1
          operands, position, heap := (before.heap.copied value).2 }
  | setsLocal {value : Value} {operands : List Value} {position : Nat}
      (named : instruction.opcode = .setLocal) (isStack : before.operands = value :: operands)
      (inside : (instruction.wordAt 0).toNat < before.locals.size) :
      Moves catalog before instruction
        { before with
          locals := before.locals.setIfInBounds (instruction.wordAt 0).toNat
            (before.heap.copied value).1
          operands, position, heap := (before.heap.copied value).2 }
  | makesArray {position : Nat} {heap : Heap} (named : instruction.opcode = .newArray)
      (change : before.heap.Change (before.Given catalog) heap (· ∈ .array ref :: rest))
      (isNew : ref.index = before.heap.arrays.size) (isThere : ref.index < heap.arrays.size)
      (items : ∀ position item, heap.element? ref position = some item -> item.Unplaced) :
      Moves catalog before instruction
        { before with operands := .array ref :: rest, position, heap }
  | storesElement {indices rest : List Value} {numbers : List Int64} {position : Nat} {heap : Heap}
      (named : instruction.opcode = .storeElement)
      (count : indices.length = (instruction.byteAt 0).toNat)
      (isStack : before.operands = value :: (indices.reverse ++ .array ref :: rest))
      (reads : indices.mapM Conversion.readInt64 = .ok numbers)
      (stores : (before.heap.copied value).2.setItem ref (numbers.map (·.toInt))
        (before.heap.copied value).1 = .ok heap) :
      Moves catalog before instruction { before with operands := rest, position, heap }
  | loadsFunction {position : Nat} (named : instruction.opcode = .loadDelegate)
      (member : lambda ∈ before.method.lambdas) : Moves catalog before instruction
        { before with
          operands := .function (before.heap.delegate lambda).1 :: before.operands
          position, heap := (before.heap.delegate lambda).2 }

/-- What an instruction does to the stance of a frame. -/
inductive Effect (catalog : Catalog) (before : Stance) (instruction : Instruction) :
    Continuation -> Stance -> Prop
  | next {after : Stance} (plain : instruction.isCall = false)
      (goes : after.position ∈ instruction.successors before.position)
      (exchange : instruction.Exchanges before.operands after.operands)
      (moves : before.Moves catalog instruction after) :
      Effect catalog before instruction .next after
  | call {keep : Bool}
      (still : after = { before with operands := after.operands, position := after.position })
      (goes : after.position ∈ instruction.successors before.position)
      (removal : instruction.Removes before.operands after.operands)
      (known : before.MayCall catalog callee)
      (given : ∀ value, callee.Has value -> before.Given catalog value)
      (kept : before.method.keeps? catalog instruction = some keep
        ∨ instruction.opcode = .invokeDelegate ∧ ∃ ref arguments,
          callee = .function ref arguments
            ∧ keep = (before.heap.function ref).signature.returnsValue) :
      Effect catalog before instruction (.call callee keep) after
  | leave (writesNone : instruction.writesElements = false) (sameHeap : after.heap = before.heap)
      (given : before.Given catalog value ∨ value.Unplaced) :
      Effect catalog before instruction (.leave value) after

section

variable {catalog : Catalog} {before after : Stance} {instruction : Instruction} {rest : List Value}
  {value : Value}

/-- A frame stays one of the same method with the same number of slots. -/
structure Same (before after : Stance) : Prop where
  method : after.method = before.method
  arguments : after.arguments.size = before.arguments.size
  locals : after.locals.size = before.locals.size

theorem Moves.same (moves : before.Moves catalog instruction after) : before.Same after := by
  cases moves with
  | setsArgument => exact ⟨rfl, Array.size_setIfInBounds, rfl⟩
  | setsLocal => exact ⟨rfl, rfl, Array.size_setIfInBounds⟩
  | _ => exact ⟨rfl, rfl, rfl⟩

/-- The functions on the heap after an instruction were there before, or one of
them was loaded. -/
theorem Moves.functions (moves : before.Moves catalog instruction after) {cell : FunctionCell}
    (member : cell ∈ after.heap.functions) : cell ∈ before.heap.functions
      ∨ ∃ lambda, lambda ∈ before.method.lambdas ∧ cell = lambda.function := by
  cases moves with
  | works _ change | makesArray _ change => exact .inl (change.functions ▸ member)
  | setsArgument | setsLocal => exact .inl ((Heap.change_copied _).functions ▸ member)
  | storesElement _ _ _ _ stores =>
    rcases Heap.setItem_ok stores with ⟨_, _, rfl⟩
    exact .inl ((Heap.change_copied _).functions ▸ member)
  | loadsFunction _ isLambda =>
    rcases Heap.mem_functions_delegate member with old | made
    · exact .inl old
    · exact .inr ⟨_, isLambda, made⟩

variable (taken : List Value)

theorem given_of_append (isStack : before.operands = taken ++ rest)
    (member : value ∈ rest) : before.Given catalog value := by
  apply Or.inl
  rw [isStack]
  exact List.mem_append_right taken member

theorem given_of_values {values : List Value} (isStack : before.operands = values.reverse ++ rest)
    (member : value ∈ values) : before.Given catalog value := by
  apply Or.inl
  rw [isStack]
  exact List.mem_append_left rest (List.mem_reverse.mpr member)

theorem given_of_unbound {values : List Value} (isStack : before.operands = values.reverse ++ rest)
    (handed : none = some value ∨ value ∈ values) : before.Given catalog value :=
  given_of_values isStack (handed.resolve_left nofun)

theorem change_drop (isStack : before.operands = taken ++ rest) :
    before.heap.Change (before.Given catalog) before.heap (· ∈ rest) :=
  .handed fun _ member => .inl (given_of_append taken isStack member)

theorem change_push (isStack : before.operands = taken ++ rest)
    (known : before.Given catalog value ∨ value.Unplaced) :
    before.heap.Change (before.Given catalog) before.heap (· ∈ value :: rest) := by
  refine .handed fun other member => ?_
  rcases List.mem_cons.mp member with rfl | below
  · exact known
  · exact .inl (given_of_append taken isStack below)

/-- A change of the heap together with the values below. -/
theorem change_with_rest {heap : Heap} (isStack : before.operands = taken ++ rest)
    (change : before.heap.Change (before.Given catalog) heap (· = value)) :
    before.heap.Change (before.Given catalog) heap (· ∈ value :: rest) := by
  refine change.keeping.narrow fun other member => ?_
  rcases List.mem_cons.mp member with same | below
  · exact .inr same
  · exact .inl (given_of_append taken isStack below)

/-- An instruction that leaves the slots alone and makes no function. -/
theorem effect_next (position : Nat) (operands : List Value) (heap : Heap)
    (goes : position ∈ instruction.successors before.position)
    (exchange : instruction.Exchanges before.operands operands)
    (change : before.heap.Change (before.Given catalog) heap (· ∈ operands))
    (plain : instruction.isCall = false) (writesNone : instruction.writesElements = false) :
    Effect catalog before instruction .next { before with position, operands, heap } :=
  .next plain goes exchange (.works writesNone change)

end
end Stance

/-- Wherever an admitted instruction with an opcode stands, an action behind the
opcode has the effect of the instruction. -/
def Stance.Performs (catalog : Catalog) (stance : Stance) (opcode : Opcode)
    (action : Execute Continuation) : Prop :=
  ∀ instruction : Instruction, instruction.opcode = opcode ->
    stance.method.chunk.Holds stance.position instruction.bytes ->
    stance.method.admits catalog true instruction = true ->
    Execute.Yields (instruction.takes ≤ stance.operands.length) action
      { stance with position := stance.position + 1 } (stance.Effect catalog instruction)

open Chunk (byte?_operand joinBytes word?_operand)
open Stance (change_drop change_push change_with_rest effect_next given_of_unbound given_of_values)

namespace Execute

section

variable {catalog : Catalog} {stance : Stance} {instruction : Instruction} {enough : Prop}
  {value : Value} {operands rest values : List Value} {count : Nat}
  {Result : Continuation -> Stance -> Prop} {receiver : Option Value} {property : PropertyEntry}

theorem lt_of_cons (isStack : operands = value :: rest) (enough : count + 2 ≤ operands.length) :
    count < rest.length := by
  rw [isStack] at enough
  exact Nat.le_of_succ_le_succ enough

theorem pos_of_append (isStack : operands = values.reverse ++ rest) (length : values.length = count)
    (enough : count + 1 ≤ operands.length) : 0 < rest.length := by
  rw [isStack, List.length_append, List.length_reverse, length] at enough
  exact Nat.lt_of_add_lt_add_left (show count + 0 < count + rest.length from enough)

theorem append_of_cons (isStack : operands = values.reverse ++ lower)
    (isLower : lower = value :: rest) : operands = (values.reverse ++ [value]) ++ rest := by
  rw [isStack, isLower, List.append_assoc, List.singleton_append]

theorem length_below (length : values.length = count) :
    (values.reverse ++ [value]).length = count + 1 := by
  rw [List.length_append, List.length_reverse, length]
  rfl

/-! ## Values and operators -/

theorem Yields.pushed (stance : Stance) (position : Nat) (operands : List Value)
    (heap : Heap) (goes : position ∈ instruction.successors stance.position)
    (exchange : instruction.Exchanges stance.operands (value :: operands))
    (change : stance.heap.Change (stance.Given catalog) heap (· ∈ value :: operands))
    (plain : instruction.isCall = false) (writesNone : instruction.writesElements = false) :
    Yields enough (Execute.push value >>= fun _ => Pure.pure .next) { stance with position, operands, heap }
      (stance.Effect catalog instruction) :=
  .push (.pure (effect_next position _ heap goes exchange change plain writesNone))

theorem Yields.pushing {α : Type} {action : Execute α} {value : α -> Execute Value}
    (rest : Yields enough (action >>= fun answer => pushing (value answer)) stance Result) :
    Yields enough (pushing (action >>= value)) stance Result := by
  rw [pushing_bind]
  exact rest

theorem Yields.pushedAbove (position : Nat) (goes : position ∈ instruction.successors stance.position)
    (takes : instruction.takes = 0) (pushes : instruction.pushes = 1)
    (plain : instruction.isCall = false) (writesNone : instruction.writesElements = false)
    (known : stance.Given catalog value ∨ value.Unplaced) :
    Yields enough (Execute.pushing (Pure.pure value)) { stance with position }
      (stance.Effect catalog instruction) :=
  .pushed stance position stance.operands stance.heap goes
    ⟨[], [value], stance.operands, takes.symm, pushes.symm, rfl, rfl⟩
    (change_push [] rfl known) plain writesNone

theorem Yields.onTwo (spares : ∀ left right, Spares (operator left right) Value.Unplaced)
    (size : instruction.size = 1)
    (goes : instruction.successors stance.position = [stance.position + instruction.size])
    (takes : instruction.takes = 2) (pushes : instruction.pushes = 1)
    (plain : instruction.isCall = false) (writesNone : instruction.writesElements = false) :
    Yields (instruction.takes ≤ stance.operands.length) (onTwo operator)
      { stance with position := stance.position + 1 } (stance.Effect catalog instruction) := by
  rw [takes]
  refine .pop Nat.lt_of_succ_lt ?_
  intro right operands isStack
  refine .pop (lt_of_cons isStack) ?_
  intro left rest isRest
  refine .check (spares left right) ?_
  intro value _ unplaced
  have isWhole : stance.operands = [right, left] ++ rest :=
    isStack.trans (congrArg (right :: ·) isRest)
  apply Yields.pushed stance (stance.position + 1) rest stance.heap _ _ _ plain writesNone
  · rw [goes, size]
    exact .head _
  · exact ⟨[right, left], [value], rest, takes.symm, pushes.symm, isWhole, rfl⟩
  · exact change_push [right, left] isWhole (.inr unplaced)

theorem Yields.onOne (position : Nat)
    (spares : ∀ operand, Spares (operator operand) Value.Unplaced)
    (goes : position ∈ instruction.successors stance.position) (takes : instruction.takes = 1)
    (pushes : instruction.pushes = 1) (plain : instruction.isCall = false)
    (writesNone : instruction.writesElements = false) :
    Yields (instruction.takes ≤ stance.operands.length) (onOne operator)
      { stance with position } (stance.Effect catalog instruction) := by
  have least (enough : instruction.takes ≤ stance.operands.length) :
      0 < stance.operands.length := by
    rw [takes] at enough
    exact enough
  refine .pop least ?_
  intro operand rest isStack
  refine .check (spares operand) ?_
  intro value _ unplaced
  exact .pushed stance position rest stance.heap goes
    ⟨[operand], [value], rest, takes.symm, pushes.symm, isStack, rfl⟩
    (change_push [operand] isStack (.inr unplaced)) plain writesNone

theorem performs_drop : stance.Performs catalog .pop (operation catalog .pop) := by
  rintro ⟨_, _, _⟩ ⟨⟩ _ _
  refine .pop id ?_
  intro value rest isStack
  exact effect_next _ rest stance.heap (.head _)
    ⟨[value], [], rest, rfl, rfl, isStack, rfl⟩ (change_drop [value] isStack) rfl rfl

theorem performs_dup : stance.Performs catalog .dup (operation catalog .dup) := by
  rintro ⟨_, _, _⟩ ⟨⟩ _ _
  refine .pop id ?_
  intro value rest isStack
  refine effect_next _ (value :: value :: rest) stance.heap (.head _)
    ⟨[value], [value, value], rest, rfl, rfl, isStack, rfl⟩ ?_ rfl rfl
  have isTop : value ∈ stance.operands := isStack ▸ .head _
  exact change_push [] isStack (.inl (.inl isTop))

theorem performs_returnValue :
    stance.Performs catalog .returnValue (operation catalog .returnValue) := by
  rintro ⟨_, _, _⟩ ⟨⟩ _ _
  refine .pop id ?_
  intro value rest isStack
  exact .leave rfl rfl (.inl (.inl (isStack ▸ .head _)))

/-- A host method is called as a host function or as a function value. -/
theorem Yields.hostCallee {β : Type} {Result : β -> Stance -> Prop} {next : Callee -> Execute β}
    {method : MethodEntry} (onHost : ∀ function, method.body = .host function ->
      Yields enough (next (.host function { receiver, arguments })) stance Result)
    (onFunction : ∀ ref, receiver = some (.function ref) ->
      Yields enough (next (.function ref arguments)) stance Result) :
    Yields enough (hostCallee method receiver arguments >>= next) stance Result := by
  unfold Execute.hostCallee
  cases isBody : method.body with
  | host function => exact onHost function isBody
  | delegateInvoke =>
    cases receiver with
    | none => exact .spared not_false
    | some =>
      simp only [bind_assoc, pure_bind]
      refine .expectFunction ?_
      rintro ref rfl
      exact onFunction ref rfl

theorem accessor_ne_text (isAccessor : first = "get_" ∨ first = "set_") (name : String)
    (hash : TypeHash) : first ++ name ≠ hash.text := by
  intro same
  have characters := congrArg String.toList same
  rw [TypeHash.text, String.toList_append, String.toList_append] at characters
  rcases isAccessor with rfl | rfl <;> cases characters

theorem Yields.readProperty (good : ∀ getter, property.getter = some getter ->
      Result (.call (.host getter { receiver }) true) stance) :
    Yields enough (readProperty catalog property receiver) stance Result := by
  unfold Execute.readProperty
  cases isGetter : property.getter with
  | some getter => exact .pure (good getter isGetter)
  | none =>
    refine .spared ?_
    rintro ⟨_, hash, isText⟩
    exact accessor_ne_text (.inl rfl) property.name hash isText

theorem Yields.writeProperty (good : ∀ setter, property.setter = some setter ->
      Result (.call (.host setter.function { receiver, arguments := [value] }) false) stance) :
    Yields enough (writeProperty catalog property receiver value) stance Result := by
  unfold Execute.writeProperty
  cases isSetter : property.setter with
  | some setter => exact .pure (good setter isSetter)
  | none =>
    refine .spared ?_
    rintro ⟨_, hash, isText⟩
    exact accessor_ne_text (.inr rfl) property.name hash isText

end

section

variable {catalog : Catalog} {stance : Stance} {instruction : Instruction} {opcode : Opcode}
  {isVirtual : Bool}

theorem performs_convert : stance.Performs catalog .convert convert := by
  rintro ⟨_, _, _⟩ ⟨⟩ holds admitted
  rcases Option.isSome_iff_exists.mp admitted with ⟨kind, isKind⟩
  refine .readByte (byte?_operand holds Nat.zero_lt_one) ?_
  rw [isKind]
  exact .onOne _ (Arithmetic.spares_convert kind) (.head _) rfl rfl rfl rfl

/-! ## Constants and slots -/

theorem performs_smallConstant : stance.Performs catalog .constant (operation catalog .constant) := by
  rintro ⟨_, _, _⟩ ⟨⟩ holds admitted
  rcases Option.isSome_iff_exists.mp admitted with ⟨value, isValue⟩
  refine .pushing ?_
  refine .readByte (byte?_operand holds Nat.zero_lt_one) ?_
  refine .constant isValue ?_
  exact .pushedAbove _ (.head _) rfl rfl rfl rfl (.inr (stance.method.unplaced_of_value? isValue))

theorem performs_wideConstant :
    stance.Performs catalog .constantWide (operation catalog .constantWide) := by
  rintro ⟨_, _, _⟩ ⟨⟩ holds admitted
  rcases Option.isSome_iff_exists.mp admitted with ⟨value, isValue⟩
  refine .pushing ?_
  refine .readWord (word?_operand holds Nat.one_lt_two) ?_
  refine .constant isValue ?_
  exact .pushedAbove _ (.head _) rfl rfl rfl rfl (.inr (stance.method.unplaced_of_value? isValue))

theorem performs_pushDefault :
    stance.Performs catalog .pushDefault (operation catalog .pushDefault) := by
  rintro ⟨_, _, _⟩ ⟨⟩ holds admitted
  rcases Option.isSome_iff_exists.mp admitted with ⟨hash, isHash⟩
  refine .pushing ?_
  refine .readHash (word?_operand holds Nat.one_lt_two) isHash ?_
  exact .pushedAbove _ (.head _) rfl rfl rfl rfl (.inr (Catalog.unplaced_defaultValue hash))

theorem performs_getArg (arguments : stance.arguments.size = stance.method.argumentSlots) :
    stance.Performs catalog .getArg (operation catalog .getArg) := by
  rintro ⟨_, _, _⟩ ⟨⟩ holds admitted
  refine .pushing ?_
  refine .readByte (byte?_operand holds Nat.zero_lt_one) ?_
  refine .of_ok _ (getArgument_run (Array.getElem?_eq_getElem
    (arguments ▸ of_decide_eq_true admitted))) ?_ rfl
  exact .pushedAbove _ (.head _) rfl rfl rfl rfl (.inl (.inr (.inl (Array.getElem_mem _))))

theorem performs_getLocalSlot (locals : stance.locals.size = stance.method.localCount) :
    stance.Performs catalog .getLocal (operation catalog .getLocal) := by
  rintro ⟨_, _, _⟩ ⟨⟩ holds admitted
  refine .pushing ?_
  refine .readWord (word?_operand holds Nat.one_lt_two) ?_
  refine .of_ok _ (getLocal_run (Array.getElem?_eq_getElem
    (locals ▸ of_decide_eq_true admitted))) ?_ rfl
  exact .pushedAbove _ (.head _) rfl rfl rfl rfl (.inl (.inr (.inr (.inl (Array.getElem_mem _)))))

theorem performs_setArg (arguments : stance.arguments.size = stance.method.argumentSlots) :
    stance.Performs catalog .setArg (operation catalog .setArg) := by
  rintro ⟨_, _, _⟩ ⟨⟩ holds admitted
  refine .readByte (byte?_operand holds Nat.zero_lt_one) ?_
  refine .popCopied id ?_
  intro value rest isStack
  have inside := arguments ▸ of_decide_eq_true (Bool.and_eq_true_iff.mp admitted).1
  refine .setArgument inside ?_
  exact .next rfl (.head _) ⟨[value], [], rest, rfl, rfl, isStack, rfl⟩
    (.setsArgument rfl isStack inside)

theorem performs_setLocalSlot (locals : stance.locals.size = stance.method.localCount) :
    stance.Performs catalog .setLocal (operation catalog .setLocal) := by
  rintro ⟨_, _, _⟩ ⟨⟩ holds admitted
  refine .readWord (word?_operand holds Nat.one_lt_two) ?_
  refine .popCopied id ?_
  intro value rest isStack
  have inside := locals ▸ of_decide_eq_true admitted
  refine .setLocal inside ?_
  exact .next rfl (.head _) ⟨[value], [], rest, rfl, rfl, isStack, rfl⟩
    (.setsLocal rfl isStack inside)

/-! ## Jumps -/

theorem performs_jump : stance.Performs catalog .jump (operation catalog .jump) := by
  rintro ⟨_, operands, complete⟩ ⟨⟩ holds _
  refine .readWord (word?_operand holds Nat.one_lt_two) ?_
  refine effect_next _ stance.operands stance.heap ?_
    ⟨[], [], stance.operands, rfl, rfl, rfl, rfl⟩ (change_drop [] rfl) rfl rfl
  match operands, complete with
  | [high, low], _ => exact .head _

theorem performs_jumpIfFalse : stance.Performs catalog .jumpIfFalse jumpIfFalse := by
  rintro ⟨_, operands, complete⟩ ⟨⟩ holds _
  refine .readWord (word?_operand holds Nat.one_lt_two) ?_
  refine .popBool id ?_
  intro value rest truth isStack
  have exchange : Instruction.Exchanges ⟨.jumpIfFalse, operands, complete⟩ stance.operands rest :=
    ⟨[value], [], rest, rfl, rfl, isStack, rfl⟩
  cases truth with
  | true =>
    exact effect_next _ rest stance.heap (.head _) exchange (change_drop [value] isStack) rfl rfl
  | false =>
    refine effect_next _ rest stance.heap ?_ exchange (change_drop [value] isStack)
      rfl rfl
    match operands, complete with
    | [high, low], _ => exact .tail _ (.head _)

theorem Yields.loop (holds : stance.method.chunk.Holds stance.position instruction.bytes)
    (named : instruction.opcode = .loop)
    (inside : ∃ target, instruction.target? stance.position = some target) :
    Yields (instruction.takes ≤ stance.operands.length) loop
      { stance with position := stance.position + 1 } (stance.Effect catalog instruction) := by
  rcases instruction with ⟨opcode, operands, complete⟩
  cases named
  refine .readWord (word?_operand holds Nat.one_lt_two) ?_
  match operands, complete with
  | [high, low], complete =>
    rcases inside with ⟨target, found⟩
    by_cases within : (joinBytes high low).toNat ≤ stance.position + 3
    · have isTarget : Instruction.target? stance.position ⟨.loop, [high, low], complete⟩
          = some (stance.position + 3 - (joinBytes high low).toNat) := if_pos within
      change Yields _ (if (joinBytes high low).toNat ≤ stance.position + 3 then _ else _) _ _
      rw [if_pos within]
      exact effect_next _ stance.operands stance.heap (Option.mem_toList.mpr isTarget)
        ⟨[], [], stance.operands, rfl, rfl, rfl, rfl⟩ (change_drop [] rfl) rfl rfl
    · have none : Instruction.target? stance.position ⟨.loop, [high, low], complete⟩ = none :=
        if_neg within
      rw [none] at found
      cases found

/-! ## Calls -/

theorem performs_callStatic : stance.Performs catalog .callStatic (callStatic catalog) := by
  rintro ⟨_, _, _⟩ ⟨⟩ holds admitted
  rcases Option.isSome_iff_exists.mp admitted with ⟨entry, isEntry⟩
  rcases Option.bind_eq_some_iff.mp isEntry with ⟨hash, isHash, isFound⟩
  refine .readHash (word?_operand holds (by decide : 0 + 1 < 3)) isHash ?_
  refine .readByte (byte?_operand holds (by decide : 2 < 3)) ?_
  refine .popMany id ?_
  intro values rest length isStack
  have kept := congrArg (Option.map MethodEntry.returnsValue) isEntry
  refine .found isFound ?_
  apply Yields.hostCallee
  · intro function isBody
    exact .call rfl (.head _) ⟨values.reverse, (List.length_reverse ..).trans length, isStack⟩
      (.method isFound (.inl rfl) isBody) (fun _ => given_of_unbound isStack) (.inl kept)
  · intro ref noReceiver
    cases noReceiver

/-- Calls on a receiver, whether the run looks for an override or not. -/
theorem performs_callOnReceiver (named : opcode = .callMethod ∨ opcode = .callVirtual) :
    stance.Performs catalog opcode (callOnReceiver catalog isVirtual) := by
  rcases named with rfl | rfl
  all_goals
    rintro ⟨_, _, _⟩ ⟨⟩ holds admitted
    rcases Option.isSome_iff_exists.mp admitted with ⟨entry, isEntry⟩
    rcases Option.bind_eq_some_iff.mp isEntry with ⟨hash, isHash, isFound⟩
    have kept := congrArg (Option.map MethodEntry.returnsValue) isEntry
    refine .readHash (word?_operand holds (by decide : 0 + 1 < 3)) isHash ?_
    refine .readByte (byte?_operand holds (by decide : 2 < 3)) ?_
    refine .popMany Nat.le_of_succ_le ?_
    intro values operands length isStack
    refine .found isFound ?_
    refine .pop (pos_of_append isStack length) ?_
    intro receiver rest isRest
    have isWhole := append_of_cons isStack isRest
    refine .requireReceiver ?_
    apply Yields.heap
    apply Yields.hostCallee
    · intro function isBody
      refine .call rfl (.head _) ⟨_, length_below length, isWhole⟩ (.method isFound ?_ isBody) ?_ (.inl kept)
      · split
        · split
          · exact .inr ⟨_, rfl⟩
          · exact .inl rfl
        · exact .inl rfl
      · rintro value (isReceiver | member)
        · cases isReceiver
          refine Stance.given_of_append values.reverse isStack ?_
          rw [show operands = receiver :: rest from isRest]
          exact .head _
        · exact given_of_values isStack member
    · intro ref _
      exact .call rfl (.head _) ⟨_, length_below length, isWhole⟩ trivial
        (fun _ => given_of_values isStack) (.inl kept)

theorem performs_callUnit : stance.Performs catalog .callUnit callUnit := by
  rintro ⟨_, _, _⟩ ⟨⟩ holds admitted
  have isThere := List.getElem?_eq_getElem (of_decide_eq_true admitted)
  refine .readByte (Chunk.byte?_operand holds Nat.zero_lt_two) ?_
  refine .readByte (Chunk.byte?_operand holds Nat.one_lt_two) ?_
  refine .frame ?_
  simp only [Stance.frame, isThere]
  refine .popMany id ?_
  intro values rest length isStack
  exact .call rfl (.head _) ⟨values.reverse, (List.length_reverse ..).trans length, isStack⟩
    (.inl ⟨List.getElem_mem _, rfl⟩) (fun _ => given_of_unbound isStack)
    (.inl (congrArg (Option.map CompiledMethod.returnsValue) isThere))

theorem performs_callSelf : stance.Performs catalog .callSelf callSelf := by
  rintro ⟨_, _, _⟩ ⟨⟩ holds _
  refine .readByte (byte?_operand holds Nat.zero_lt_one) ?_
  refine .popMany id ?_
  intro values rest length isStack
  refine .call rfl (.head _)
    ⟨values.reverse, (List.length_reverse ..).trans length, isStack⟩ (.inr ⟨rfl, rfl⟩) ?_ (.inl rfl)
  rintro value (isReceiver | member)
  · have isFirst : (if stance.method.hasReceiver then stance.arguments[0]? else none) = some value :=
      isReceiver
    split at isFirst
    · exact .inr (.inl (Array.mem_of_getElem? isFirst))
    · cases isFirst
  · exact given_of_values isStack member

theorem performs_new : stance.Performs catalog .new (new catalog) := by
  rintro ⟨_, _, _⟩ ⟨⟩ holds admitted
  rcases Bool.and_eq_true_iff.mp admitted with ⟨isType, isConstructor⟩
  rcases Option.isSome_iff_exists.mp isType with ⟨type, typeHash⟩
  rcases Option.isSome_iff_exists.mp isConstructor with ⟨entry, isEntry⟩
  rcases Option.bind_eq_some_iff.mp isEntry with ⟨hash, isHash, isFound⟩
  have counted := byte?_operand holds (by decide : 4 < 5)
  refine .readHash (word?_operand holds (by decide : 0 + 1 < 5)) typeHash ?_
  refine .readHash (word?_operand holds (by decide : 2 + 1 < 5)) isHash ?_
  refine .readByte counted ?_
  refine .popMany id ?_
  intro values rest length isStack
  refine .found isFound ?_
  cases isBody : entry.body with
  | delegateInvoke => exact .spared not_false
  | host =>
    exact .call rfl (.head _) ⟨values.reverse, (List.length_reverse ..).trans length, isStack⟩
      (.method isFound (.inl rfl) isBody) (fun _ => given_of_unbound isStack) (.inl rfl)

/-! ## Members -/

theorem Yields.member {α : Type} {Result : Continuation -> Stance -> Prop}
    {find : TypeHash -> Option α} {next : α -> Execute Continuation}
    (holds : stance.method.chunk.Holds stance.position instruction.bytes)
    (size : 0 + 1 < instruction.opcode.operandSize)
    (admitted : (stance.method.hash? (instruction.wordAt 0).toNat >>= find).isSome = true)
    (rest : ∀ hash entry, find hash = some entry ->
      Yields enough (next entry) { stance with position := stance.position + 3 } Result) :
    Yields enough (Execute.readHash >>= fun hash => Execute.found hash (find hash) >>= next)
      { stance with position := stance.position + 1 } Result := by
  rcases Option.isSome_iff_exists.mp admitted with ⟨entry, isEntry⟩
  rcases Option.bind_eq_some_iff.mp isEntry with ⟨hash, isHash, isFound⟩
  exact .readHash (word?_operand holds size) isHash (.found isFound (rest hash entry isFound))

theorem performs_getField : stance.Performs catalog .getField (getField catalog) := by
  rintro ⟨_, _, _⟩ ⟨⟩ holds admitted
  refine .member holds Nat.one_lt_two admitted fun hash field isFound => ?_
  refine .pop id ?_
  intro value rest isStack
  refine .expectObject ?_
  intro ref _
  refine .check (field.access.spares_get stance.heap ref) ?_
  intro answer _ change
  refine effect_next _ (answer.1 :: rest) answer.2 (.head _)
    ⟨[value], [answer.1], rest, rfl, rfl, isStack, rfl⟩
    (change_with_rest [value] isStack (change.widen ?_)) rfl rfl
  exact fun fixed isFixed => .inr (.inr (.inr ⟨hash, field, isFound, isFixed⟩))

theorem performs_setField : stance.Performs catalog .setField (setField catalog) := by
  rintro ⟨_, operands, _⟩ ⟨⟩ holds admitted
  refine .member holds Nat.one_lt_two admitted fun hash field isFound => ?_
  refine .popCopied Nat.lt_of_succ_lt ?_
  intro value operands isStack
  refine .pop (lt_of_cons isStack) ?_
  intro receiver rest isRest
  refine .expectObject ?_
  intro ref _
  refine .check (field.access.spares_set _ ref _) ?_
  intro answer _ change
  have isWhole : stance.operands = [value, receiver] ++ rest :=
    isStack.trans (congrArg (value :: ·) isRest)
  have isTop : value ∈ stance.operands := isStack ▸ .head _
  have stored : stance.heap.Change (stance.Given catalog) answer fun _ => False :=
    ((stance.heap.change_copied value).widen (fun _ same => .inl (same ▸ isTop))).trans (change.widen (fun _ => .inr))
  refine effect_next _ rest answer (.head _)
    ⟨[value, receiver], [], rest, rfl, rfl, isWhole, rfl⟩ ?_ rfl rfl
  exact stored.keeping.narrow
    fun _ member => .inl (Stance.given_of_append [value, receiver] isWhole member)

/-- Reads of a property of a receiver, whether the run looks for an override or
not. -/
theorem performs_getProperty (named : opcode = .getProperty ∨ opcode = .getPropertyVirtual) :
    stance.Performs catalog opcode (getProperty catalog isVirtual) := by
  rcases named with rfl | rfl
  all_goals
    rintro ⟨_, _, _⟩ ⟨⟩ holds admitted
    refine .member holds Nat.one_lt_two admitted fun hash property isFound => ?_
    refine .pop id ?_
    intro receiver rest isStack
    refine .requireReceiver ?_
    refine .dispatched ?_
    intro entry isChosen
    refine .readProperty ?_
    intro getter isGetter
    refine .call rfl (.head _) ⟨[receiver], rfl, isStack⟩
      (.accessor isFound isChosen (.inl isGetter)) ?_ (.inl rfl)
    rintro value (isReceiver | member)
    · cases isReceiver
      exact .inl (isStack ▸ .head _)
    · cases member

theorem performs_setProperty (named : opcode = .setProperty ∨ opcode = .setPropertyVirtual) :
    stance.Performs catalog opcode (setProperty catalog isVirtual) := by
  rcases named with rfl | rfl
  all_goals
    rintro ⟨_, _, _⟩ ⟨⟩ holds admitted
    refine .member holds Nat.one_lt_two admitted fun hash property isFound => ?_
    refine .pop Nat.lt_of_succ_lt ?_
    intro value operands isStack
    refine .pop (lt_of_cons isStack) ?_
    intro receiver rest isRest
    refine .requireReceiver ?_
    refine .dispatched ?_
    intro entry isChosen
    refine .writeProperty ?_
    intro setter isSetter
    have isWhole : stance.operands = [value, receiver] ++ rest :=
      isStack.trans (congrArg (value :: ·) isRest)
    refine .call rfl (.head _) ⟨[value, receiver], rfl, isWhole⟩
      (.accessor isFound isChosen (.inr ⟨setter, isSetter, rfl⟩)) ?_ (.inl rfl)
    rintro other (isReceiver | member)
    · cases isReceiver
      exact .inl (isWhole ▸ List.mem_cons_of_mem value (.head _))
    · cases List.mem_singleton.mp member
      exact .inl (isWhole ▸ .head _)

theorem performs_getStaticProperty :
    stance.Performs catalog .getStaticProperty (getStaticProperty catalog) := by
  rintro ⟨_, _, _⟩ ⟨⟩ holds admitted
  refine .member holds Nat.one_lt_two admitted fun hash property isFound => ?_
  refine .readProperty ?_
  intro getter isGetter
  exact .call rfl (.head _) ⟨[], rfl, rfl⟩ (.accessor isFound (.inl rfl) (.inl isGetter))
    (fun _ => given_of_unbound (List.nil_append _).symm) (.inl rfl)

theorem performs_setStaticProperty :
    stance.Performs catalog .setStaticProperty (setStaticProperty catalog) := by
  rintro ⟨_, _, _⟩ ⟨⟩ holds admitted
  refine .member holds Nat.one_lt_two admitted fun hash property isFound => ?_
  refine .pop id ?_
  intro value rest isStack
  refine .writeProperty ?_
  intro setter isSetter
  exact .call rfl (.head _) ⟨[value], rfl, isStack⟩ (.accessor isFound (.inl rfl) (.inr ⟨setter, isSetter, rfl⟩))
    (fun _ => given_of_unbound isStack) (.inl rfl)

/-! ## Arrays -/

theorem performs_newArray : stance.Performs catalog .newArray newArray := by
  rintro ⟨_, _, _⟩ ⟨⟩ holds admitted
  rcases Option.isSome_iff_exists.mp admitted with ⟨hash, isHash⟩
  refine .readHash (word?_operand holds (by decide : 0 + 1 < 3)) isHash ?_
  refine .readByte (byte?_operand holds (by decide : 2 < 3)) ?_
  refine .popIndices id ?_
  intro values rest numbers length isStack _
  refine .dimensions ?_
  intro sizes
  refine .check (stance.heap.spares_newArray hash sizes _) ?_
  rintro ⟨ref, after⟩ _ ⟨change, isNew, isThere, items⟩
  have unplaced := Catalog.unplaced_defaultValue hash
  -- The default that fills the array is no object.
  have fill : stance.heap.Change (stance.Given catalog) stance.heap (· = Catalog.defaultValue hash) :=
    .handed fun _ same => .inr (same ▸ unplaced)
  have made : stance.heap.Change (stance.Given catalog) after (· = .array ref) :=
    fill.trans (change.widen (fun _ => .inr))
  exact .next rfl (.head _)
    ⟨values.reverse, [.array ref], rest, (List.length_reverse ..).trans length, rfl, isStack, rfl⟩
    (.makesArray rfl (change_with_rest values.reverse isStack made) isNew isThere (items unplaced))

theorem performs_loadElement : stance.Performs catalog .loadElement loadElement := by
  rintro ⟨_, _, _⟩ ⟨⟩ holds _
  refine .readByte (byte?_operand holds Nat.zero_lt_one) ?_
  refine .popIndices Nat.le_of_succ_le ?_
  intro values lower numbers length isStack _
  refine .pop (pos_of_append isStack length) ?_
  intro value rest isLower
  refine .expectArray ?_
  intro ref _
  refine .check (stance.heap.spares_getItem ref _) ?_
  intro item _ isOn
  have isWhole := append_of_cons isStack isLower
  have found : stance.heap.Change (stance.Given catalog) stance.heap (· = item) :=
    .still fun closed _ _ same => same ▸ isOn closed
  exact .pushed stance _ rest stance.heap (.head _)
    ⟨values.reverse ++ [value], [item], rest, length_below length, rfl, isWhole, rfl⟩
    (change_with_rest (values.reverse ++ [value]) isWhole found) rfl rfl

theorem performs_storeElement : stance.Performs catalog .storeElement storeElement := by
  rintro ⟨_, _, _⟩ ⟨⟩ holds _
  refine .readByte (byte?_operand holds Nat.zero_lt_one) ?_
  refine .popCopied (Nat.lt_of_lt_of_le (Nat.succ_pos _)) ?_
  intro value others isStack
  refine .popIndices (fun enough => Nat.le_of_lt (lt_of_cons isStack enough)) ?_
  intro values lower numbers length isOthers reads
  refine .pop (fun enough => pos_of_append isOthers length (lt_of_cons isStack enough)) ?_
  intro target rest isLower
  refine .expectArray ?_
  rintro ref rfl
  refine .check (Heap.spares_setItem _ ref _ _) ?_
  intro answer stores _
  refine .next rfl (.head _) ⟨value :: (values.reverse ++ [.array ref]), [], rest, ?_, rfl,
      isStack.trans (congrArg (value :: ·) (append_of_cons isOthers isLower)), rfl⟩
    (.storesElement rfl length ?_ reads stores)
  · rw [List.length_cons, length_below length]
    rfl
  · rw [show lower = .array ref :: rest from isLower] at isOthers
    exact isStack.trans (congrArg (value :: ·) isOthers)

/-! ## Functions -/

theorem performs_loadDelegate : stance.Performs catalog .loadDelegate loadDelegate := by
  rintro ⟨_, _, _⟩ ⟨⟩ holds admitted
  have isThere := List.getElem?_eq_getElem (of_decide_eq_true admitted)
  refine .readByte (Chunk.byte?_operand holds Nat.zero_lt_one) ?_
  refine .frame ?_
  simp only [Stance.frame, isThere]
  exact .next rfl (.head _) ⟨[], [_], stance.operands, rfl, rfl, rfl, rfl⟩
    (.loadsFunction rfl (List.getElem_mem _))

theorem performs_invokeDelegate : stance.Performs catalog .invokeDelegate invokeDelegate := by
  rintro ⟨_, _, _⟩ ⟨⟩ holds _
  refine .readByte (byte?_operand holds Nat.zero_lt_one) ?_
  refine .popMany Nat.le_of_succ_le ?_
  intro values lower length isStack
  refine .pop (pos_of_append isStack length) ?_
  intro value rest isLower
  refine .expectFunction ?_
  intro ref _
  exact .call rfl (.head _) ⟨_, length_below length, append_of_cons isStack isLower⟩ trivial
    (fun _ => given_of_values isStack) (.inr ⟨rfl, ref, values, rfl, rfl⟩)

end
end Execute
end OpMachine
