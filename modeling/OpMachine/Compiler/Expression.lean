import OpMachine.Compiler.Member

namespace OpMachine

/-!
Compilation of expressions.

Operands are compiled before the operator that takes them, and every
expression with a type leaves one value on the stack.  An expression that is
compiled for its effects only has that value popped, except that assignments
and parentheses pass the wish on and never make the value in the first place.
-/

/-- Whether the value of an expression is wanted. -/
inductive ValueUse where
  | kept
  | discarded
deriving DecidableEq

/-- The instructions of an operator.  The negated comparisons are the opposite
comparison followed by a complement, and the logical operators take both
operands. -/
def BinaryOperator.opcodes : BinaryOperator -> List Opcode
  | .add => [.add]
  | .subtract => [.sub]
  | .multiply => [.mul]
  | .divide => [.div]
  | .remainder => [.rem]
  | .and | .conditionalAnd => [.bitAnd]
  | .or | .conditionalOr => [.bitOr]
  | .exclusiveOr => [.bitXor]
  | .leftShift => [.shl]
  | .rightShift => [.shr]
  | .equals => [.eq]
  | .notEquals => [.eq, .not]
  | .lessThan => [.lt]
  | .lessThanOrEqual => [.gt, .not]
  | .greaterThan => [.gt]
  | .greaterThanOrEqual => [.lt, .not]

def UnaryOperator.opcodes : UnaryOperator -> List Opcode
  | .plus => []
  | .negate => [.neg]
  | .not => [.not]
  | .bitwiseNot => [.bitNot]

/-- Where an assignment stores, once its receiver is on the stack. -/
inductive StorePlace where
  | argument (slot : UInt8)
  | localVariable (slot : UInt16)
  | member (access : MemberAccess)
  | element (rank : UInt8)

def StorePlace.load : StorePlace -> Emit Unit
  | .argument slot => .getArg slot
  | .localVariable slot => .getLocal slot
  | .member access => .withHash access.loadOpcode access.hash
  | .element rank => .withByte .loadElement rank

def StorePlace.store : StorePlace -> Emit Unit
  | .argument slot => .setArg slot
  | .localVariable slot => .setLocal slot
  | .member access => .withHash access.storeOpcode access.hash
  | .element rank => .withByte .storeElement rank

inductive CallTarget where
  | self
  /-- Another declared method, by its position among the called ones. -/
  | declared (callee : UInt8)
  | host (method : MethodEntry)

namespace Compile

def opcodes : List Opcode -> Compile Unit
  | [] => return ()
  | opcode :: rest => do
      emit (.opcode opcode)
      opcodes rest

/-- The value of an expression dropped when it is not wanted. -/
def settle (use : ValueUse) (info : Info) : Compile Unit :=
  match use with
  | .kept => return ()
  | .discarded => if info.producesValue then emit .pop else return ()

/-- An expression on its line, its value settled. -/
def expression (info : Info) (use : ValueUse) (code : Compile Unit) : Compile Unit := do
  emit (.setLine info.line)
  code
  settle use info

def literal (info : Info) : Compile Unit :=
  match info.literal with
  | some .null => emit .null
  | some (.bool value) => emit (.bool value)
  | some (.int value) => emit (.constant (.int value))
  | some (.int64 value) => emit (.constant (.int64 value))
  | some (.uint value) => emit (.constant (.uint value))
  | some (.uint64 value) => emit (.constant (.uint64 value))
  | some (.float value) => emit (.constant (.float value))
  | some (.double value) => emit (.constant (.double value))
  | some (.string value) => emit (.string value)
  | _ => unsupported (Operation.literal info).shapeName

def elementRank (indices : List Operation) : Compile UInt8 :=
  if 0 < indices.length ∧ indices.length < 256 then return indices.length.toUInt8
  else unsupported ("element access with " ++ toString indices.length ++ " indices")

/-- A size or position in code, which must fit a signed word. -/
def sizeOperand (size : Nat) (shape : String) : Compile Unit :=
  if size < 0x80000000 then emit (.int (.ofNat size)) else unsupported shape

/-- The conversion of a compiled operand from one type to another.  Between
references it needs no code. -/
def convert (source target : TypeHash) : Compile Unit := do
  if target = source then return ()
  match NumericKind.ofType? target, NumericKind.ofType? source with
  | some kind, some _ => emit (.convert kind)
  | _, _ =>
      let catalog ← catalog
      let isReference := match catalog.get? target with
        | some type => !type.traits.isValueType
        | none => false
      unless isReference do
        unsupported ("Conversion(" ++ catalog.displayName source ++ " -> "
          ++ catalog.displayName target ++ ")")

/-- The load of the function made from an anonymous function, which may stand
in parentheses. -/
def delegate (session : Session) : Operation -> Compile Unit
  | .anonymousFunction _ symbol _ => do
      let index ← lambdaIndex session symbol.id
      emit (.withByte .loadDelegate index)
  | .parenthesized _ operand => delegate session operand
  | other => unsupported ("DelegateCreation(" ++ other.shapeName ++ ")")

/-! ## Calls -/

/-- The overload that a symbol names, closed over its type arguments. -/
def hostMethod (owner : TypeHash) (method : MethodSymbol) : Compile MethodEntry := do
  let requested ← resolveAll (method.parameters.map (·.type))
  let candidates := ((← catalog).methodsNamed owner method.name).filter
    fun candidate => candidate.method.isStatic == method.isStatic
  let selected ← selectOverload owner method.name requested candidates
  if selected.isGenericDefinition then
    if method.typeArguments.isEmpty then
      invalid ("type arguments for generic method '" ++ method.name ++ "'") "none"
    else
      let arguments ← resolveAll method.typeArguments
      closeMethod selected arguments owner requested
  else
    return selected

variable (surroundings : Surroundings)

/-- A declared method is compiled anew at each call, unless it calls itself. -/
def declaredMethod (hasReceiver : Bool) (method : MethodSymbol)
    (count : Nat) : Compile CallTarget := do
  if hasReceiver || !method.isStatic then
    invalid "static source method" method.signatureText
  let _ ← argumentCount count
  if method.id = (← get).slots.owner then
    return .self
  else
    let callee ← make (surroundings.callee method)
    return .declared (← addCallee callee)

/-- What a call names: a host method if its type is in the catalog, and a
declared method otherwise. -/
def callTarget (hasReceiver : Bool) (method : MethodSymbol) (count : Nat) : Compile CallTarget := do
  match ← make (Make.lookup (Catalog.resolve method.containingType)) with
  | some owner => return .host (← hostMethod owner method)
  | none => declaredMethod surroundings hasReceiver method count

/-- Whether a call takes a receiver from the stack. -/
def takesReceiver : CallTarget -> Bool
  | .host method => !method.isStatic
  | _ => false

def call (target : CallTarget) (count : UInt8) : Compile Unit :=
  match target with
  | .self => emit (.withByte .callSelf count)
  | .declared callee => emit (.callUnit callee count)
  | .host method =>
      match method.body with
      | .delegateInvoke => emit (.withByte .invokeDelegate count)
      | .host _ =>
          let opcode : Opcode :=
            if method.isStatic then .callStatic
            else if method.isVirtual then .callVirtual
            else .callMethod
          emit (.call opcode method.hash count)

def constructorOf (symbol : MethodSymbol) : Compile (TypeHash × TypeHash) := do
  let owner ← resolve symbol.containingType
  let requested ← resolveAll (symbol.parameters.map (·.type))
  let candidates := (← catalog).constructors owner
  let selected ← selectOverload owner MethodSymbol.constructorName requested candidates
  return (owner, selected.hash)

/-! ## Arrays -/

def arrayType (info : Info) : Compile (TypeHash × Nat) := do
  match info.type with
  | some (.array element rank) =>
      let type ← resolve element
      match ← make (Make.lookup (Catalog.closeArray type rank.toNat)) with
      | some _ => return (type, rank.toNat)
      | none => throw (.unresolvedType (Descriptor.array element rank).text)
  | some other => invalid "array type" other.text
  | none => invalid "array type" "untyped"

def newArray (element : TypeHash) (rank : Nat) : Compile Unit :=
  emit (.newArray element rank.toUInt8)

/-! ## Interpolation -/

def textBuilder : Compile TypeHash := do
  match (← catalog).byName? SystemTypes.textBuilderName with
  | some builder => return builder
  | none => throw (.unresolvedType SystemTypes.textBuilderName)

variable (builder : TypeHash)

def builderMethod (name : String) (requested : List TypeHash) : Compile MethodEntry := do
  selectOverload builder name requested ((← catalog).methodsNamed builder name)

def literalLength : List InterpolationPart -> Nat
  | [] => 0
  | .text content :: rest => content.length + literalLength rest
  | .hole _ _ :: rest => literalLength rest

def holeCount : List InterpolationPart -> Nat
  | [] => 0
  | .text _ :: rest => holeCount rest
  | .hole _ _ :: rest => holeCount rest + 1

/-- A new text builder, told what is to come. -/
def newText (parts : List InterpolationPart) : Compile Unit := do
  let requested := [TypeHash.int, TypeHash.int]
  let candidates := (← catalog).constructors builder
  let constructor ← selectOverload builder MethodSymbol.constructorName requested candidates
  sizeOperand (literalLength parts) "interpolated text too long"
  sizeOperand (holeCount parts) "interpolated text too long"
  emit (.new builder constructor.hash 2)

def appendText (content : String) : Compile Unit := do
  let append ← builderMethod builder SystemTypes.appendLiteralName [.string]
  emit .dup
  emit (.string content)
  emit (.call .callMethod append.hash 1)

/-- What a hole says besides its value. -/
structure HoleShape where
  isAligned : Bool
  format : Option String

/-- At most one alignment and one format, in either order. -/
def HoleShape.ofArguments? : List HoleArgument -> Option HoleShape
  | [] => some ⟨false, none⟩
  | [.format specifier] => some ⟨false, some specifier⟩
  | [.alignment _] => some ⟨true, none⟩
  | [.alignment _, .format specifier] => some ⟨true, some specifier⟩
  | [.format specifier, .alignment _] => some ⟨true, some specifier⟩
  | _ => none

def HoleShape.requested (shape : HoleShape) (value : TypeHash) : List TypeHash :=
  value :: (if shape.isAligned then [.int] else [])
    ++ (if shape.format.isSome then [.string] else [])

/-- The method that appends a formatted hole, and the number of its arguments. -/
def appendHole (value : Operation) (arguments : List HoleArgument) :
    Compile (MethodEntry × HoleShape × UInt8) := do
  match HoleShape.ofArguments? arguments with
  | none =>
      unsupported ("interpolation hole with " ++ toString arguments.length ++ " arguments")
  | some shape =>
      let type ← staticType value
      let requested := shape.requested type
      let append ← builderMethod builder SystemTypes.appendFormattedName requested
      let closed ← closeMethod append [type] builder requested
      return (closed, shape, requested.length.toUInt8)

def takeText : Compile Unit := do
  let take ← builderMethod builder SystemTypes.takeTextName []
  emit (.call .callMethod take.hash 0)

/-! ## Assignment -/

def missingReceiver (member : String) : Compile Unit :=
  invalid ("receiver for instance member '" ++ member ++ "'") "no instance"

def isImplicit : Option Operation -> Bool
  | some (.implicitReceiver _) => true
  | _ => false

def requireImplicitReceiver : Compile Unit := do
  if (← get).implicitReceivers = 0 then
    unsupported "ImplicitReceiver outside an object initializer"

variable (place : StorePlace)

/-- A store to a variable or a static property of the value on the stack. -/
def storeValue (use : ValueUse) : Compile Unit := do
  if use = .kept then emit .dup
  emit place.store

/-- A store of the value that lies above its receiver on the stack.  A wanted
value is kept in a temporary meanwhile. -/
def storeAbove (use : ValueUse) : Compile Unit := do
  match use with
  | .discarded => emit place.store
  | .kept =>
      let slot ← freshSlot
      emit .dup
      emit (.setLocal slot)
      emit place.store
      emit (.getLocal slot)

/-- The value on the stack moved to a temporary. -/
def spill : Compile UInt16 := do
  let slot ← freshSlot
  emit (.setLocal slot)
  return slot

def reload : List UInt16 -> Compile Unit
  | [] => return ()
  | slot :: rest => do
      emit (.getLocal slot)
      reload rest

/-- An assignment to a place that needs no receiver, computed from the old
value. -/
def updateValue (operator : BinaryOperator) (value : Compile Unit)
    (use : ValueUse) : Compile Unit := do
  emit place.load
  value
  opcodes operator.opcodes
  storeValue place use

/-- An assignment to a place whose receiver is in temporaries, computed from
the old value.  The receiver is loaded once for the store and once for the
load. -/
def updateAbove (receiver : List UInt16) (operator : BinaryOperator)
    (value : Compile Unit) (use : ValueUse) : Compile Unit := do
  reload receiver
  reload receiver
  emit place.load
  value
  opcodes operator.opcodes
  storeAbove place use

/-- The code of an object initializer, during which its object is an implicit
receiver. -/
def withImplicitReceiver (code : Compile Unit) : Compile Unit := do
  modify fun body => { body with implicitReceivers := body.implicitReceivers + 1 }
  code
  modify fun body => { body with implicitReceivers := body.implicitReceivers - 1 }

mutual

def code (surroundings : Surroundings) (use : ValueUse) : Operation -> Compile Unit
  | .literal info => expression info use (literal info)
  | .parameter info symbol => expression info use do
      let slot ← parameterSlot symbol
      emit (.getArg slot)
  | .localVariable info symbol => expression info use do
      let slot ← localSlot symbol
      emit (.getLocal slot)
  | .implicitReceiver info => expression info use (unsupported "ImplicitReceiver read")
  | .member info _ receiver symbol => expression info use do
      let access ← readableMember symbol
      unless access.isStatic do
        receiverCode surroundings symbol.name receiver
      emit (.withHash access.loadOpcode access.hash)
  | .element info array indices => expression info use do
      let rank ← elementRank indices
      code surroundings .kept array
      codeAll surroundings indices
      emit (.withByte .loadElement rank)
  | .binary info operator left right => expression info use do
      code surroundings .kept left
      code surroundings .kept right
      opcodes operator.opcodes
  | .unary info operator operand => expression info use do
      code surroundings .kept operand
      opcodes operator.opcodes
  | .conversion info operand => expression info use do
      let target ← staticType (.conversion info operand)
      let source ← staticType operand
      code surroundings .kept operand
      convert source target
  | .conditional info condition whenTrue (some whenFalse) => expression info use do
      code surroundings .kept condition
      let otherwise ← emit (.jump .jumpIfFalse)
      code surroundings .kept whenTrue
      let finish ← emit (.jump .jump)
      emit (.patch otherwise)
      code surroundings .kept whenFalse
      emit (.patch finish)
  | .conditional info _ _ none => expression info use
      (invalid "conditional expression with both branches" "missing false branch")
  | .invocation info receiver method arguments => expression info use do
      let target ← callTarget surroundings receiver.isSome method arguments.length
      if takesReceiver target then
        receiverCode surroundings method.name receiver
      codeAll surroundings arguments
      call target (← argumentCount arguments.length)
  | .anonymousFunction info _ _ => expression info use
      (unsupported "AnonymousFunction in expression position")
  | .delegateCreation info target => expression info use
      (delegate surroundings.session target)
  | .interpolation info parts => expression info use do
      let builder ← textBuilder
      newText builder parts
      partCode surroundings builder parts
      takeText builder
  | .arrayCreation info sizes none => expression info use do
      let (element, rank) ← arrayType info
      if sizes.isEmpty then
        invalid "array dimension sizes or initializer" "neither"
      if sizes.length ≠ rank then
        invalid (toString rank ++ " dimension sizes") (toString sizes.length)
      codeAll surroundings sizes
      newArray element rank
  | .arrayCreation info sizes (some items) => expression info use do
      let (element, rank) ← arrayType info
      if rank ≠ 1 then
        unsupported "multi-dimensional array initializer"
      if sizes.isEmpty then
        sizeOperand items.length "array initializer too long"
      else
        if sizes.length ≠ rank then
          invalid (toString rank ++ " dimension sizes") (toString sizes.length)
        codeAll surroundings sizes
      newArray element rank
      itemCode surroundings 0 items
  | .objectCreation info constructor arguments initializer => expression info use do
      let (owner, constructor) ← constructorOf constructor
      codeAll surroundings arguments
      emit (.new owner constructor (← argumentCount arguments.length))
      withImplicitReceiver (initializerCode surroundings initializer)
  | .assignment info target value => do
      emit (.setLine info.line)
      storeCode surroundings (code surroundings .kept value) use target
  | .compoundAssignment info operator target value => do
      emit (.setLine info.line)
      updateCode surroundings operator (code surroundings .kept value) use target
  | .declaration info _ _ => expression info use
      (unsupported "VariableDeclaration in expression position")
  | .block info _ => expression info use
      (unsupported "Block in expression position")
  | .expressionStatement info _ => expression info use
      (unsupported "ExpressionStatement in expression position")
  | .parenthesized info operand => do
      emit (.setLine info.line)
      code surroundings use operand
  | .returnStatement info _ => expression info use
      (unsupported "Return in expression position")
  | .whileLoop info _ _ => expression info use
      (unsupported "WhileLoop in expression position")
  | .unsupported info shape _ => expression info use (unsupported shape)

def codeAll (surroundings : Surroundings) : List Operation -> Compile Unit
  | [] => return ()
  | operation :: rest => do
      code surroundings .kept operation
      codeAll surroundings rest

/-- An instance member needs a receiver. -/
def receiverCode (surroundings : Surroundings) (member : String) :
    Option Operation -> Compile Unit
  | none => missingReceiver member
  | some operation => code surroundings .kept operation

/-- The code that stores the items of an array initializer, the first one at a
position. -/
def itemCode (surroundings : Surroundings) (position : Nat) : List Operation -> Compile Unit
  | [] => return ()
  | item :: rest => do
      emit .dup
      sizeOperand position "array initializer too long"
      code surroundings .kept item
      emit (.withByte .storeElement 1)
      itemCode surroundings (position + 1) rest

/-- Each part is appended to the builder, which stays on the stack. -/
def partCode (surroundings : Surroundings) (builder : TypeHash) :
    List InterpolationPart -> Compile Unit
  | [] => return ()
  | .text content :: rest => do
      appendText builder content
      partCode surroundings builder rest
  | .hole value arguments :: rest => do
      let (append, shape, count) ← appendHole builder value arguments
      emit .dup
      code surroundings .kept value
      alignmentCode surroundings arguments
      match shape.format with
      | some specifier => emit (.string specifier)
      | none => pure ()
      emit (.call .callMethod append.hash count)
      partCode surroundings builder rest

def alignmentCode (surroundings : Surroundings) : List HoleArgument -> Compile Unit
  | [] => return ()
  | .alignment width :: rest => do
      code surroundings .kept width
      alignmentCode surroundings rest
  | .format _ :: rest => alignmentCode surroundings rest

/-- Each assignment works on a duplicate of the object. -/
def initializerCode (surroundings : Surroundings) : List Operation -> Compile Unit
  | [] => return ()
  | .assignment info target value :: rest => do
      emit (.setLine info.line)
      emit .dup
      storeCode surroundings (code surroundings .kept value) .discarded target
      initializerCode surroundings rest
  | other :: _ => do
      emit (.setLine other.line)
      unsupported (other.shapeName ++ " in object initializer")

/-- The code that assigns to a target; its receiver is evaluated before the value. -/
def storeCode (surroundings : Surroundings) (value : Compile Unit) (use : ValueUse) :
    Operation -> Compile Unit
  | .parameter _ symbol => do
      let slot ← parameterSlot symbol
      value
      storeValue (.argument slot) use
  | .localVariable _ symbol => do
      let slot ← localSlot symbol
      value
      storeValue (.localVariable slot) use
  | .member _ _ receiver symbol => do
      let access ← writableMember symbol
      if access.isStatic then
        value
        storeValue (.member access) use
      else
        if isImplicit receiver then requireImplicitReceiver
        else receiverCode surroundings symbol.name receiver
        value
        storeAbove (.member access) use
  | .element _ array indices => do
      let rank ← elementRank indices
      code surroundings .kept array
      codeAll surroundings indices
      value
      storeAbove (.element rank) use
  | .parenthesized _ operand => storeCode surroundings value use operand
  | other => unsupported ("assignment to " ++ other.shapeName)

/-- The code that assigns to a target a value computed from its old one.  The
receiver of the target is evaluated once. -/
def updateCode (surroundings : Surroundings) (operator : BinaryOperator)
    (value : Compile Unit) (use : ValueUse) : Operation -> Compile Unit
  | .parameter _ symbol => do
      let slot ← parameterSlot symbol
      updateValue (.argument slot) operator value use
  | .localVariable _ symbol => do
      let slot ← localSlot symbol
      updateValue (.localVariable slot) operator value use
  | .member _ _ receiver symbol => do
      let access ← writableMember symbol
      if access.isStatic then
        updateValue (.member access) operator value use
      else if isImplicit receiver then
        requireImplicitReceiver
        unsupported "compound assignment in object initializer"
      else
        receiverCode surroundings symbol.name receiver
        let slot ← spill
        updateAbove (.member access) [slot] operator value use
  | .element _ array indices => do
      let rank ← elementRank indices
      code surroundings .kept array
      let slot ← spill
      let slots ← spillCode surroundings indices
      updateAbove (.element rank) (slot :: slots) operator value use
  | .parenthesized _ operand => updateCode surroundings operator value use operand
  | other => unsupported ("assignment to " ++ other.shapeName)

/-- Indices evaluated once, into temporaries. -/
def spillCode (surroundings : Surroundings) : List Operation -> Compile (List UInt16)
  | [] => return []
  | operation :: rest => do
      code surroundings .kept operation
      let slot ← spill
      let slots ← spillCode surroundings rest
      return slot :: slots

end

end Compile
end OpMachine
