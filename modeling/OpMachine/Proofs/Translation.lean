import OpMachine.Proofs.EmittedCode

namespace OpMachine

/-!
# What code a tree is compiled to

`Compile.Translates` relates a part of an operation tree to the structured code
that is emitted for it, as seen from the finished body.  It has one rule for
each clause of the compiler, and it leaves out everything that only happens
while code is written: lines, placeholders, patches and the growth of tables.
Constants and hashes are named by their index in the finished pool, locals by
their slot, and a question to the catalog by the answer that was obtained.

Every expression and every statement puts a mark around its own code.  A mark
has no bytes; it keeps the correspondence between a tree and the ranges of its
code visible in the result.
-/

/-- What a marked part of code was emitted for. -/
inductive CodeMark where
  | expression (use : ValueUse) (operation : Operation)
  | statement (operation : Operation)

/-- Code with the marks of the compiler. -/
abbrev MarkedCode := Code CodeMark

namespace MarkedCode

def plain (opcode : Opcode) (complete : opcode.operandSize = 0) : MarkedCode :=
  .single (.plain opcode complete)

theorem size_plain (opcode : Opcode) (complete : opcode.operandSize = 0) :
    (plain opcode complete).size = 1 := congrArg (1 + ·) complete

def pop : MarkedCode := plain .pop rfl

def dup : MarkedCode := plain .dup rfl

def getLocal (slot : UInt16) : MarkedCode := .single (.withWord .getLocal slot rfl)

def setLocal (slot : UInt16) : MarkedCode := .single (.withWord .setLocal slot rfl)

/-- Code that stores in a local slot nowhere. -/
def Avoids (code : MarkedCode) (slot : UInt16) : Prop :=
  code.Every (· ≠ .withWord .setLocal slot rfl)

/-- The loads of temporaries in order. -/
def reload : List UInt16 -> MarkedCode
  | [] => .empty
  | slot :: rest => getLocal slot ++ reload rest

/-- A store that keeps a copy of the stored value when it is wanted. -/
def keeping (use : ValueUse) (store : MarkedCode) : MarkedCode :=
  match use with
  | .kept => dup ++ store
  | .discarded => store

end MarkedCode

/-! ## Code of single steps -/

theorem MemberAccess.operandSize_loadOpcode (access : MemberAccess) :
    access.loadOpcode.operandSize = 2 := by
  cases access with
  | field | staticProperty => rfl
  | property _ isVirtual => cases isVirtual <;> rfl

theorem MemberAccess.operandSize_storeOpcode (access : MemberAccess) :
    access.storeOpcode.operandSize = 2 := by
  cases access with
  | field | staticProperty => rfl
  | property _ isVirtual => cases isVirtual <;> rfl

def StorePlace.LoadCode (pool : ConstantPool) : StorePlace -> MarkedCode -> Prop
  | .argument slot, code => code = .single (.withByte .getArg slot rfl)
  | .localVariable slot, code => code = .getLocal slot
  | .member access, code => ∃ index : UInt16, pool.Has index.toNat (.hash access.hash)
      ∧ code = .single (.withWord access.loadOpcode index access.operandSize_loadOpcode)
  | .element rank, code => code = .single (.withByte .loadElement rank rfl)

def StorePlace.StoreCode (pool : ConstantPool) : StorePlace -> MarkedCode -> Prop
  | .argument slot, code => code = .single (.withByte .setArg slot rfl)
  | .localVariable slot, code => code = .setLocal slot
  | .member access, code => ∃ index : UInt16, pool.Has index.toNat (.hash access.hash)
      ∧ code = .single (.withWord access.storeOpcode index access.operandSize_storeOpcode)
  | .element rank, code => code = .single (.withByte .storeElement rank rfl)

/-- The opcode that pushes a truth value. -/
def Opcode.ofBool (value : Bool) : Opcode := if value then .pushTrue else .pushFalse

theorem Opcode.operandSize_ofBool (value : Bool) : (ofBool value).operandSize = 0 := by
  cases value <;> rfl

/-- The code that loads a literal.  Characters and decimals have none. -/
def Literal.Loads (pool : ConstantPool) : Literal -> MarkedCode -> Prop
  | .null, code => code = .plain .pushNull rfl
  | .bool value, code => code = .plain (.ofBool value) (Opcode.operandSize_ofBool value)
  | .int value, code => Emit.Loads pool (.int value) code
  | .int64 value, code => Emit.Loads pool (.int64 value) code
  | .uint value, code => Emit.Loads pool (.uint value) code
  | .uint64 value, code => Emit.Loads pool (.uint64 value) code
  | .float value, code => Emit.Loads pool (.float value) code
  | .double value, code => Emit.Loads pool (.double value) code
  | .string value, code => Emit.Loads pool (.string value) code
  | .char _, _ => False
  | .decimal _ _, _ => False

/-- The function under a delegate creation, which may stand in parentheses. -/
def Operation.function? : Operation -> Option MethodSymbol
  | .anonymousFunction _ symbol _ => some symbol
  | .parenthesized _ operand => operand.function?
  | _ => none

/-- The code that loads a size or a position, none of which is too large. -/
def Emit.LoadsSize (pool : ConstantPool) (size : Nat) (code : MarkedCode) : Prop :=
  size < 0x80000000 ∧ Emit.Loads pool (.int (.ofNat size)) code

/-- A slot from a number on that holds no local of a finished body. -/
structure Body.Temporary (finished : Body) (low : Nat) (slot : UInt16) : Prop where
  above : low ≤ slot.toNat
  inside : slot.toNat < finished.slots.localCount
  unnamed : ∀ id : SymbolId, finished.slots.locals[id]? ≠ some slot

open MarkedCode (getLocal keeping setLocal)
open StorePlace (member)

namespace Compile

/-- The code of operators in order, none of which has operands of its own. -/
inductive Operates : List Opcode -> MarkedCode -> Prop
  | none : Operates [] .empty
  | next (opcode : Opcode) (complete : opcode.operandSize = 0) (plain : opcode.isJump = false)
      {code : MarkedCode} (later : Operates rest code) :
      Operates (opcode :: rest) (MarkedCode.plain opcode complete ++ code)

/-- The code of a conversion between two types.  Between numbers of different
types there is an instruction, and otherwise nothing. -/
inductive Converts (source target : TypeHash) : MarkedCode -> Prop
  | same (equal : target = source) : Converts source target .empty
  | number (kind sourceKind : NumericKind) (different : target ≠ source)
      (toKind : NumericKind.ofType? target = some kind)
      (fromKind : NumericKind.ofType? source = some sourceKind) :
      Converts source target (.single (.withByte .convert kind.toByte rfl))
  | reference (different : target ≠ source)
      (notBoth : NumericKind.ofType? target = none ∨ NumericKind.ofType? source = none) :
      Converts source target .empty

def hostOpcode (method : MethodEntry) : Opcode :=
  if method.isStatic then .callStatic else if method.isVirtual then .callVirtual else .callMethod

theorem operandSize_hostOpcode (method : MethodEntry) : (hostOpcode method).operandSize = 3 := by
  unfold hostOpcode
  split
  · rfl
  · split
    · rfl
    · rfl

/-- The call instruction for a target, with its operands on the stack. -/
inductive Calls (pool : ConstantPool) : CallTarget -> UInt8 -> MarkedCode -> Prop
  | self (count : UInt8) : Calls pool .self count (.single (.withByte .callSelf count rfl))
  | declared (callee count : UInt8) :
      Calls pool (.declared callee) count (.single (.callUnit callee count))
  | delegate (method : MethodEntry) (count : UInt8) (invokes : method.body = .delegateInvoke) :
      Calls pool (.host method) count (.single (.withByte .invokeDelegate count rfl))
  | host (method : MethodEntry) (function : HostFunction) (count : UInt8) (index : UInt16)
      (native : method.body = .host function) (present : pool.Has index.toNat (.hash method.hash)) :
      Calls pool (.host method) count
        (.single (.withCount (hostOpcode method) index count (operandSize_hostOpcode method)))

/-- The store of a value that lies above its receiver.  A wanted value is kept
in a temporary meanwhile. -/
inductive StoresAbove (finished : Body) (low : Nat) (store : MarkedCode) :
    ValueUse -> MarkedCode -> Prop
  | discarded : StoresAbove finished low store .discarded store
  | kept (slot : UInt16) (temporary : finished.Temporary low slot) :
      StoresAbove finished low store .kept
        (MarkedCode.dup ++ (setLocal slot ++ (store ++ getLocal slot)))

def textConstructor (builder : TypeHash) : Compile MethodEntry := do
  selectOverload builder MethodSymbol.constructorName [.int, .int]
    ((← catalog).constructors builder)

/-! ## The relation -/

/-- A part of a tree together with what it is compiled for. -/
inductive Task where
  | value (use : ValueUse) (operation : Operation)
  /-- An expression before its value is dropped. -/
  | shape (operation : Operation)
  | values (operations : List Operation)
  /-- The items of an array initializer, the first one at a position. -/
  | items (position : Nat) (operations : List Operation)
  | parts (builder : TypeHash) (parts : List InterpolationPart)
  | alignments (arguments : List HoleArgument)
  /-- The entries of an object initializer. -/
  | entries (operations : List Operation)
  | store (use : ValueUse) (target value : Operation)
  | update (use : ValueUse) (operator : BinaryOperator) (target value : Operation)
  /-- Expressions whose values go to temporaries. -/
  | spills (operations : List Operation) (slots : List UInt16)
  | statement (returnsValue : Bool) (operation : Operation)
  | statements (returnsValue : Bool) (operations : List Operation)
  | body (returnsValue : Bool) (operation : Operation)

section

variable (surroundings : Surroundings) (origin : Catalog) (finished : Body)

/-- The places that need no receiver: variables and static properties. -/
inductive SimplePlace (depth : Nat) : Operation -> StorePlace -> Prop
  | parameter (found : finished.slots.parameterSlot symbol = .ok slot) :
      SimplePlace depth (.parameter info symbol) (.argument slot)
  | localVariable (found : finished.slots.locals[symbol.id]? = some slot) :
      SimplePlace depth (.localVariable info symbol) (.localVariable slot)
  | staticMember (found : Obtains surroundings origin depth finished (writableMember symbol) access)
      (static : access.isStatic = true) :
      SimplePlace depth (.member info form receiver symbol) (.member access)

/-- The code of a part of a tree inside a number of object initializers.  Its
temporaries have slots from a number on. -/
inductive Translates : Nat -> Nat -> Task -> MarkedCode -> Prop
  -- Expressions, with their value kept or dropped.
  | kept {code : MarkedCode} (shape : Translates depth low (.shape operation) code) :
      Translates depth low (.value .kept operation) (.marked (.expression .kept operation) code)
  | dropped {code : MarkedCode} (shape : Translates depth low (.shape operation) code)
      (produces : operation.producesValue = true) :
      Translates depth low (.value .discarded operation)
        (.marked (.expression .discarded operation) (code ++ MarkedCode.pop))
  | droppedNothing {code : MarkedCode} (shape : Translates depth low (.shape operation) code)
      (producesNothing : operation.producesValue = false) :
      Translates depth low (.value .discarded operation)
        (.marked (.expression .discarded operation) code)
  | assignment {code : MarkedCode} (store : Translates depth low (.store use target value) code) :
      Translates depth low (.value use (.assignment info target value))
        (.marked (.expression use (.assignment info target value)) code)
  | compoundAssignment {code : MarkedCode}
      (update : Translates depth low (.update use operator target value) code) :
      Translates depth low (.value use (.compoundAssignment info operator target value))
        (.marked (.expression use (.compoundAssignment info operator target value)) code)
  | parenthesized {code : MarkedCode} (inner : Translates depth low (.value use operand) code) :
      Translates depth low (.value use (.parenthesized info operand))
        (.marked (.expression use (.parenthesized info operand)) code)
  -- The shapes of expressions.
  | literal {depth low : Nat} {info : Info} {literal : Literal} {code : MarkedCode}
      (isLiteral : info.literal = some literal)
      (loads : literal.Loads finished.emitter.pool code) :
      Translates depth low (.shape (.literal info)) code
  | parameter (found : finished.slots.parameterSlot symbol = .ok slot) :
      Translates depth low (.shape (.parameter info symbol))
        (.single (.withByte .getArg slot rfl))
  | localVariable (found : finished.slots.locals[symbol.id]? = some slot) :
      Translates depth low (.shape (.localVariable info symbol)) (getLocal slot)
  | staticMember (found : Obtains surroundings origin depth finished (readableMember symbol) access)
      (static : access.isStatic = true)
      (loads : (member access).LoadCode finished.emitter.pool load) :
      Translates depth low (.shape (.member info form receiver symbol)) load
  | instanceMember
      (found : Obtains surroundings origin depth finished (readableMember symbol) access)
      (onInstance : access.isStatic = false)
      (operand : Translates depth low (.value .kept receiver) first)
      (loads : (member access).LoadCode finished.emitter.pool load) :
      Translates depth low (.shape (.member info form (some receiver) symbol)) (first ++ load)
  | element (some : 0 < indices.length) (few : indices.length < 256)
      (operand : Translates depth low (.value .kept array) first)
      (operands : Translates depth low (.values indices) second) :
      Translates depth low (.shape (.element info array indices))
        (first ++ (second ++ .single (.withByte .loadElement indices.length.toUInt8 rfl)))
  | binary (leftOperand : Translates depth low (.value .kept left) first)
      (rightOperand : Translates depth low (.value .kept right) second)
      (operates : Operates operator.opcodes third) :
      Translates depth low (.shape (.binary info operator left right)) (first ++ (second ++ third))
  | unary (inner : Translates depth low (.value .kept operand) first)
      (operates : Operates operator.opcodes second) :
      Translates depth low (.shape (.unary info operator operand)) (first ++ second)
  | conversion (targetFound : Obtains surroundings origin depth finished
        (staticType (.conversion info operand)) target)
      (sourceFound : Obtains surroundings origin depth finished (staticType operand) source)
      (inner : Translates depth low (.value .kept operand) first)
      (converts : Converts source target second) :
      Translates depth low (.shape (.conversion info operand)) (first ++ second)
  | conditional (test : Translates depth low (.value .kept condition) first)
      (onTrue : Translates depth low (.value .kept whenTrue) second)
      (onFalse : Translates depth low (.value .kept whenFalse) third) :
      Translates depth low (.shape (.conditional info condition whenTrue (some whenFalse)))
        (first ++ .branch second third)

  | call (found : Obtains surroundings origin depth finished
        (callTarget surroundings receiver.isSome method arguments.length) target)
      (without : takesReceiver target = false) (few : arguments.length < 256)
      (operands : Translates depth low (.values arguments) first)
      (calls : Calls finished.emitter.pool target arguments.length.toUInt8 second) :
      Translates depth low (.shape (.invocation info receiver method arguments)) (first ++ second)
  | callOnReceiver (found : Obtains surroundings origin depth finished
        (callTarget surroundings true method arguments.length) target)
      (takes : takesReceiver target = true) (few : arguments.length < 256)
      (operand : Translates depth low (.value .kept receiver) first)
      (operands : Translates depth low (.values arguments) second)
      (calls : Calls finished.emitter.pool target arguments.length.toUInt8 third) :
      Translates depth low (.shape (.invocation info (some receiver) method arguments))
        (first ++ (second ++ third))
  | delegateCreation (isFunction : target.function? = some symbol)
      (found : Obtains surroundings origin depth finished
        (lambdaIndex surroundings.session symbol.id) index) :
      Translates depth low (.shape (.delegateCreation info target))
        (.single (.withByte .loadDelegate index rfl))
  | interpolation (isBuilder : Obtains surroundings origin depth finished textBuilder builder)
      (isConstructor : Obtains surroundings origin depth finished (textConstructor builder)
        constructor)
      (lengths : Emit.Loads finished.emitter.pool (.int (.ofNat (literalLength parts))) first)
      (holes : Emit.Loads finished.emitter.pool (.int (.ofNat (holeCount parts))) second)
      (type : finished.emitter.pool.Has typeIndex.toNat (.hash builder))
      (creates : finished.emitter.pool.Has constructorIndex.toNat (.hash constructor.hash))
      (appended : Translates depth low (.parts builder parts) third)
      (isTake : Obtains surroundings origin depth finished
        (builderMethod builder SystemTypes.takeTextName []) take)
      (takes : finished.emitter.pool.Has takeIndex.toNat (.hash take.hash)) :
      Translates depth low (.shape (.interpolation info parts))
        ((first ++ (second ++ .single (.new typeIndex constructorIndex 2)))
          ++ (third ++ .single (.withCount .callMethod takeIndex 0 rfl)))
  | newArray (found : Obtains surroundings origin depth finished (arrayType info)
        (element, sizes.length)) (operands : Translates depth low (.values sizes) first)
      (type : finished.emitter.pool.Has index.toNat (.hash element)) :
      Translates depth low (.shape (.arrayCreation info sizes none))
        (first ++ .single (.withCount .newArray index sizes.length.toUInt8 rfl))
  | newVector (found : Obtains surroundings origin depth finished (arrayType info) (element, 1))
      (length : Emit.LoadsSize finished.emitter.pool items.length first)
      (type : finished.emitter.pool.Has index.toNat (.hash element))
      (stored : Translates depth low (.items 0 items) second) :
      Translates depth low (.shape (.arrayCreation info [] (some items)))
        (first ++ (.single (.withCount .newArray index 1 rfl) ++ second))
  | newSizedVector
      (found : Obtains surroundings origin depth finished (arrayType info) (element, 1))
      (operands : Translates depth low (.values [size]) first)
      (type : finished.emitter.pool.Has index.toNat (.hash element))
      (stored : Translates depth low (.items 0 items) second) :
      Translates depth low (.shape (.arrayCreation info [size] (some items)))
        (first ++ (.single (.withCount .newArray index 1 rfl) ++ second))
  | objectCreation {owner hash : TypeHash}
      (found : Obtains surroundings origin depth finished (constructorOf constructor) (owner, hash))
      (few : arguments.length < 256) (operands : Translates depth low (.values arguments) first)
      (type : finished.emitter.pool.Has typeIndex.toNat (.hash owner))
      (creates : finished.emitter.pool.Has constructorIndex.toNat (.hash hash))
      (initializes : Translates (depth + 1) low (.entries initializer) second) :
      Translates depth low (.shape (.objectCreation info constructor arguments initializer))
        (first ++ (.single (.new typeIndex constructorIndex arguments.length.toUInt8) ++ second))
  -- Lists of expressions and the parts of larger shapes.
  | noValues : Translates depth low (.values []) .empty
  | moreValues (headValue : Translates depth low (.value .kept head) first)
      (tailValues : Translates depth low (.values tail) second) :
      Translates depth low (.values (head :: tail)) (first ++ second)
  | noItems : Translates depth low (.items position []) .empty
  | moreItems (index : Emit.LoadsSize finished.emitter.pool position first)
      (item : Translates depth low (.value .kept head) second)
      (later : Translates depth low (.items (position + 1) tail) third) :
      Translates depth low (.items position (head :: tail))
        (MarkedCode.dup ++ (first ++ (second
          ++ (.single (.withByte .storeElement 1 rfl) ++ third))))
  | noParts : Translates depth low (.parts builder []) .empty
  | textPart (found : Obtains surroundings origin depth finished
        (builderMethod builder SystemTypes.appendLiteralName [.string]) append)
      (text : Emit.Loads finished.emitter.pool (.string content) first)
      (appends : finished.emitter.pool.Has index.toNat (.hash append.hash))
      (later : Translates depth low (.parts builder rest) second) :
      Translates depth low (.parts builder (.text content :: rest))
        ((MarkedCode.dup ++ (first ++ .single (.withCount .callMethod index 1 rfl))) ++ second)
  | holePart {third : MarkedCode}
      (found : Obtains surroundings origin depth finished (appendHole builder value arguments)
        (append, shape, count)) (operand : Translates depth low (.value .kept value) first)
      (alignment : Translates depth low (.alignments arguments) second)
      (format : shape.format = none ∧ third = .empty ∨ ∃ specifier,
        shape.format = some specifier ∧ Emit.Loads finished.emitter.pool (.string specifier) third)
      (appends : finished.emitter.pool.Has index.toNat (.hash append.hash))
      (later : Translates depth low (.parts builder rest) fourth) :
      Translates depth low (.parts builder (.hole value arguments :: rest))
        (MarkedCode.dup ++ (first ++ (second ++ (third
          ++ (.single (.withCount .callMethod index count rfl) ++ fourth)))))
  | noAlignments : Translates depth low (.alignments []) .empty
  | alignment (operand : Translates depth low (.value .kept width) first)
      (later : Translates depth low (.alignments rest) second) :
      Translates depth low (.alignments (.alignment width :: rest)) (first ++ second)
  | format {code : MarkedCode} (later : Translates depth low (.alignments rest) code) :
      Translates depth low (.alignments (.format specifier :: rest)) code
  | noEntries : Translates depth low (.entries []) .empty
  | entry (store : Translates depth low (.store .discarded target value) first)
      (later : Translates depth low (.entries rest) second) :
      Translates depth low (.entries (.assignment info target value :: rest))
        (MarkedCode.dup ++ (first ++ second))

  -- Assignments.
  | storeSimple (found : SimplePlace surroundings origin finished depth target place)
      (operand : Translates depth low (.value .kept value) first)
      (stores : place.StoreCode finished.emitter.pool store) :
      Translates depth low (.store use target value) (first ++ keeping use store)
  | storeImplicit
      (found : Obtains surroundings origin depth finished (writableMember symbol) access)
      (onInstance : access.isStatic = false) (implicit : isImplicit receiver = true)
      (inside : depth ≠ 0) (operand : Translates depth low (.value .kept value) first)
      (stores : (member access).StoreCode finished.emitter.pool store)
      (above : StoresAbove finished low store use second) :
      Translates depth low (.store use (.member info form receiver symbol) value) (first ++ second)
  | storeMember (found : Obtains surroundings origin depth finished (writableMember symbol) access)
      (onInstance : access.isStatic = false) (explicit : isImplicit (some receiver) = false)
      (object : Translates depth low (.value .kept receiver) first)
      (operand : Translates depth low (.value .kept value) second)
      (stores : (member access).StoreCode finished.emitter.pool store)
      (above : StoresAbove finished low store use third) :
      Translates depth low (.store use (.member info form (some receiver) symbol) value)
        (first ++ (second ++ third))
  | storeElement (some : 0 < indices.length) (few : indices.length < 256)
      (object : Translates depth low (.value .kept array) first)
      (operands : Translates depth low (.values indices) second)
      (operand : Translates depth low (.value .kept value) third) (above : StoresAbove finished low
        (.single (.withByte .storeElement indices.length.toUInt8 rfl)) use fourth) :
      Translates depth low (.store use (.element info array indices) value)
        (first ++ (second ++ (third ++ fourth)))
  | storeParenthesized {code : MarkedCode}
      (inner : Translates depth low (.store use target value) code) :
      Translates depth low (.store use (.parenthesized info target) value) code
  | updateSimple (found : SimplePlace surroundings origin finished depth target place)
      (loads : place.LoadCode finished.emitter.pool load)
      (operand : Translates depth low (.value .kept value) first)
      (operates : Operates operator.opcodes operation)
      (stores : place.StoreCode finished.emitter.pool store) :
      Translates depth low (.update use operator target value)
        (load ++ (first ++ (operation ++ keeping use store)))
  | updateMember (found : Obtains surroundings origin depth finished (writableMember symbol) access)
      (onInstance : access.isStatic = false) (explicit : isImplicit (some receiver) = false)
      (onReceiver : Translates depth low (.value .kept receiver) object)
      (temporary : finished.Temporary low slot)
      (loads : (member access).LoadCode finished.emitter.pool load)
      (operand : Translates depth low (.value .kept value) first)
      (operates : Operates operator.opcodes operation)
      (stores : (member access).StoreCode finished.emitter.pool store)
      (above : StoresAbove finished low store use second) :
      Translates depth low (.update use operator (.member info form (some receiver) symbol) value)
        (object ++ (setLocal slot ++ (MarkedCode.reload [slot] ++ (MarkedCode.reload [slot]
          ++ (load ++ (first ++ (operation ++ second)))))))
  | updateElement (some : 0 < indices.length) (few : indices.length < 256)
      (onArray : Translates depth low (.value .kept array) object)
      (temporary : finished.Temporary low slot)
      (onIndices : Translates depth (slot.toNat + 1) (.spills indices slots) spilled)
      (operand : Translates depth low (.value .kept value) first)
      (operates : Operates operator.opcodes operation) (above : StoresAbove finished low
        (.single (.withByte .storeElement indices.length.toUInt8 rfl)) use second) :
      Translates depth low (.update use operator (.element info array indices) value)
        (object ++ (setLocal slot ++ (spilled
          ++ (MarkedCode.reload (slot :: slots) ++ (MarkedCode.reload (slot :: slots)
            ++ (.single (.withByte .loadElement indices.length.toUInt8 rfl)
              ++ (first ++ (operation ++ second))))))))
  | updateParenthesized {code : MarkedCode}
      (inner : Translates depth low (.update use operator target value) code) :
      Translates depth low (.update use operator (.parenthesized info target) value) code
  | noSpills : Translates depth low (.spills [] []) .empty
  | spill (operand : Translates depth low (.value .kept head) first)
      (temporary : finished.Temporary low slot)
      (later : Translates depth (slot.toNat + 1) (.spills tail slots) second) :
      Translates depth low (.spills (head :: tail) (slot :: slots))
        (first ++ (setLocal slot ++ second))
  -- Statements.
  | block {code : MarkedCode}
      (inner : Translates depth low (.statements returnsValue operations) code) :
      Translates depth low (.statement returnsValue (.block info operations))
        (.marked (.statement (.block info operations)) code)
  | declaration {code : MarkedCode} (found : finished.slots.locals[symbol.id]? = some slot)
      (start : Translates depth low (.value .kept initializer) code) :
      Translates depth low (.statement returnsValue (.declaration info symbol (some initializer)))
        (.marked (.statement (.declaration info symbol (some initializer))) (code ++ setLocal slot))
  | defaultDeclaration (found : finished.slots.locals[symbol.id]? = some slot)
      (isType : Obtains surroundings origin depth finished (resolve symbol.type) type)
      (present : finished.emitter.pool.Has index.toNat (.hash type)) :
      Translates depth low (.statement returnsValue (.declaration info symbol none))
        (.marked (.statement (.declaration info symbol none))
          (.single (.withWord .pushDefault index rfl) ++ setLocal slot))
  | returnValue {code : MarkedCode} (operand : Translates depth low (.value .kept value) code) :
      Translates depth low (.statement true (.returnStatement info (some value)))
        (.marked (.statement (.returnStatement info (some value)))
          (code ++ MarkedCode.plain .returnValue rfl))
  | returnDropped {code : MarkedCode}
      (operand : Translates depth low (.value .discarded value) code) :
      Translates depth low (.statement false (.returnStatement info (some value)))
        (.marked (.statement (.returnStatement info (some value)))
          (code ++ MarkedCode.plain .returnVoid rfl))
  | returnNothing :
      Translates depth low (.statement false (.returnStatement info none))
        (.marked (.statement (.returnStatement info none)) (MarkedCode.plain .returnVoid rfl))
  | whileLoop (test : Translates depth low (.value .kept condition) first)
      (repeated : Translates depth low (.statement returnsValue body) second) :
      Translates depth low (.statement returnsValue (.whileLoop info condition body))
        (.marked (.statement (.whileLoop info condition body)) (.loop first second))
  | onlyIf (untyped : info.type = none) (test : Translates depth low (.value .kept condition) first)
      (onTrue : Translates depth low (.statement returnsValue whenTrue) second) :
      Translates depth low (.statement returnsValue (.conditional info condition whenTrue none))
        (.marked (.statement (.conditional info condition whenTrue none))
          (first ++ .guarded second))
  | ifElse (untyped : info.type = none) (test : Translates depth low (.value .kept condition) first)
      (onTrue : Translates depth low (.statement returnsValue whenTrue) second)
      (onFalse : Translates depth low (.statement returnsValue whenFalse) third) :
      Translates depth low
        (.statement returnsValue (.conditional info condition whenTrue (some whenFalse)))
        (.marked (.statement (.conditional info condition whenTrue (some whenFalse)))
          (first ++ .branch second third))
  | expressionStatement {depth low : Nat} {info : Info} {expression : Operation} {code : MarkedCode}
      (inner : Translates depth low (.value .discarded expression) code) :
      Translates depth low (.statement returnsValue (.expressionStatement info expression))
        (.marked (.statement (.expressionStatement info expression)) code)
  | evaluated {code : MarkedCode} (isExpression : isStatement operation = false)
      (inner : Translates depth low (.value .discarded operation) code) :
      Translates depth low (.statement returnsValue operation) (.marked (.statement operation) code)
  | noStatements : Translates depth low (.statements returnsValue []) .empty
  | moreStatements (headCode : Translates depth low (.statement returnsValue head) first)
      (tailCode : Translates depth low (.statements returnsValue tail) second) :
      Translates depth low (.statements returnsValue (head :: tail)) (first ++ second)
  -- Whole bodies.
  | statementBody {code : MarkedCode} (asStatement : isStatement operation = true)
      (inner : Translates depth low (.statement returnsValue operation) code) :
      Translates depth low (.body returnsValue operation) (code ++ MarkedCode.plain .returnVoid rfl)
  | valueBody {code : MarkedCode} (asExpression : isStatement operation = false)
      (produces : operation.producesValue = true)
      (inner : Translates depth low (.value .kept operation) code) :
      Translates depth low (.body true operation) (code ++ MarkedCode.plain .returnValue rfl)
  | effectBody {code : MarkedCode} (asExpression : isStatement operation = false)
      (inner : Translates depth low (.value .discarded operation) code) :
      Translates depth low (.body false operation) (code ++ MarkedCode.plain .returnVoid rfl)

end

end Compile
end OpMachine
