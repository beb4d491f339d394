import OpMachine.Catalog.Members
import OpMachine.Machine.Frame
import OpMachine.Machine.Host

namespace OpMachine

/-!
Instructions.

An instruction either leads to the next one, or leaves the frame, or wants
something called.  In the last case the frame waits, and the result of the
call is pushed or dropped when it arrives.
-/

/-- What an instruction wants called. -/
inductive Callee where
  | function (ref : FunctionRef) (arguments : List Value)
  | method (method : CompiledMethod) (receiver : Option Value) (arguments : List Value)
  | host (function : HostFunction) (call : HostCall)

/-- What follows an instruction. -/
inductive Continuation where
  | next
  | call (callee : Callee) (keep : Bool)
  | leave (value : Value)

namespace Execute

def missingMember {α : Type} (hash : TypeHash) : Execute α :=
  throw (.memberNotFound "<catalog>" hash.text)

def found {α : Type} (hash : TypeHash) : Option α -> Execute α
  | some entry => return entry
  | none => missingMember hash

variable (value : Value)

def expectObject (member : String) : Execute ObjectRef :=
  match value with
  | .object ref => return ref
  | .null | .void => throw (.nullReference ("access to '" ++ member ++ "'"))
  | other => throw (.typeMismatch "object" other.kindName)

def expectArray : Execute ArrayRef :=
  match value with
  | .array ref => return ref
  | .null | .void => throw (.nullReference "array element access")
  | other => throw (.typeMismatch "array" other.kindName)

def expectFunction : Execute FunctionRef :=
  match value with
  | .function ref => return ref
  | .null | .void => throw (.nullReference "delegate invocation")
  | other => throw (.typeMismatch "function value" other.kindName)

def requireReceiver (member : String) : Execute Unit :=
  match value with
  | .null | .void => throw (.nullReference ("call to '" ++ member ++ "'"))
  | _ => return ()

def onTwo (operation : Value -> Value -> Except RuntimeError Value) :
    Execute Continuation := do
  let right ← pop
  let left ← pop
  push (← check (operation left right))
  return .next

def onOne (operation : Value -> Except RuntimeError Value) : Execute Continuation := do
  let operand ← pop
  push (← check (operation operand))
  return .next

/-- A delegate is invoked by calling the function that is its receiver. -/
def hostCallee (method : MethodEntry) (receiver : Option Value) (arguments : List Value) :
    Execute Callee :=
  match method.body with
  | .host function => return .host function { receiver, arguments }
  | .delegateInvoke =>
      match receiver with
      | some value => return .function (← expectFunction value) arguments
      | none => throw (.nullReference ("call to '" ++ method.name ++ "'"))

variable (catalog : Catalog)

def callStatic : Execute Continuation := do
  let hash ← readHash
  let count ← readByte
  let arguments ← popMany count.toNat
  let method ← found hash (catalog.method? hash)
  return .call (← hostCallee method none arguments) method.returnsValue

/-- A call of a host method on a receiver.  A virtual one runs the override
that the type of the receiver has. -/
def callOnReceiver (isVirtual : Bool) : Execute Continuation := do
  let hash ← readHash
  let count ← readByte
  let arguments ← popMany count.toNat
  let method ← found hash (catalog.method? hash)
  let receiver ← pop
  requireReceiver receiver method.name
  let target := match (← heap).runtimeType receiver with
    | some type => if isVirtual then catalog.overriding type method else method
    | none => method
  return .call (← hostCallee target (some receiver) arguments) method.returnsValue

/-- A call of another declared method, which has no receiver. -/
def callUnit : Execute Continuation := do
  let index := (← readByte).toNat
  let count ← readByte
  match (← frame).method.callees[index]? with
  | some callee =>
      let arguments ← popMany count.toNat
      return .call (.method callee none arguments) callee.returnsValue
  | none => invalid ("callee " ++ toString index ++ " out of range")

/-- A call of the running method, on the same receiver. -/
def callSelf : Execute Continuation := do
  let count ← readByte
  let arguments ← popMany count.toNat
  let frame ← frame
  let receiver := if frame.method.hasReceiver then frame.arguments[0]? else none
  return .call (.method frame.method receiver arguments) frame.method.returnsValue

/-- A call of a constructor, whose result is the new object. -/
def new : Execute Continuation := do
  let type ← readHash
  let hash ← readHash
  let count ← readByte
  let arguments ← popMany count.toNat
  let constructor ← found hash (catalog.method? hash)
  match constructor.body with
  | .host function =>
      return .call (.host function { arguments, constructedType := some type }) true
  | .delegateInvoke => throw (.typeMismatch "native constructor" constructor.name)

def getField : Execute Continuation := do
  let hash ← readHash
  let field ← found hash (catalog.field? hash)
  let ref ← expectObject (← pop) field.name
  let (value, heap) ← check (field.access.get (← heap) ref)
  setHeap heap
  push value
  return .next

def setField : Execute Continuation := do
  let hash ← readHash
  let field ← found hash (catalog.field? hash)
  let value ← popCopied
  let ref ← expectObject (← pop) field.name
  setHeap (← check (field.access.set (← heap) ref value))
  return .next

/-- A virtual access is to the override that the receiver has. -/
def dispatched (isVirtual : Bool) (receiver : Value)
    (property : PropertyEntry) : Execute PropertyEntry := do
  match (← heap).runtimeType receiver with
  | some type =>
      return if isVirtual then catalog.overridingProperty type property else property
  | none => return property

def readProperty (property : PropertyEntry) (receiver : Option Value) : Execute Continuation :=
  match property.getter with
  | some getter => return .call (.host getter { receiver }) true
  | none => throw (.memberNotFound (catalog.displayName property.owner)
      ("get_" ++ property.name))

def writeProperty (property : PropertyEntry) (receiver : Option Value)
    (value : Value) : Execute Continuation :=
  match property.setter with
  | some setter => return .call (.host setter.function { receiver, arguments := [value] }) false
  | none => throw (.memberNotFound (catalog.displayName property.owner)
      ("set_" ++ property.name))

def getProperty (isVirtual : Bool) : Execute Continuation := do
  let hash ← readHash
  let property ← found hash (catalog.property? hash)
  let receiver ← pop
  requireReceiver receiver property.name
  readProperty catalog (← dispatched catalog isVirtual receiver property) (some receiver)

def getStaticProperty : Execute Continuation := do
  let hash ← readHash
  let property ← found hash (catalog.property? hash)
  readProperty catalog property none

def setProperty (isVirtual : Bool) : Execute Continuation := do
  let hash ← readHash
  let property ← found hash (catalog.property? hash)
  let value ← pop
  let receiver ← pop
  requireReceiver receiver property.name
  writeProperty catalog (← dispatched catalog isVirtual receiver property) (some receiver)
    value

def setStaticProperty : Execute Continuation := do
  let hash ← readHash
  let property ← found hash (catalog.property? hash)
  writeProperty catalog property none (← pop)

def dimensions : List Int -> Execute (List Nat)
  | [] => return []
  | size :: rest => do
      if size < 0 then throw (.indexOutOfRange size 0)
      return size.toNat :: (← dimensions rest)

def newArray : Execute Continuation := do
  let element ← readHash
  let rank ← readByte
  let sizes ← dimensions (← popIndices rank)
  let (ref, heap) ← check ((← heap).newArray element sizes (Catalog.defaultValue element))
  setHeap heap
  push (.array ref)
  return .next

def loadElement : Execute Continuation := do
  let rank ← readByte
  let indices ← popIndices rank
  let ref ← expectArray (← pop)
  push (← check (((← heap).array ref).get indices))
  return .next

def storeElement : Execute Continuation := do
  let rank ← readByte
  let value ← popCopied
  let indices ← popIndices rank
  let ref ← expectArray (← pop)
  setHeap (← check ((← heap).setItem ref indices value))
  return .next

def loadDelegate : Execute Continuation := do
  let index := (← readByte).toNat
  match (← frame).method.lambdas[index]? with
  | some lambda =>
      let (ref, heap) := (← heap).delegate lambda
      setHeap heap
      push (.function ref)
      return .next
  | none => invalid ("lambda " ++ toString index ++ " out of range")

def invokeDelegate : Execute Continuation := do
  let count ← readByte
  let arguments ← popMany count.toNat
  let ref ← expectFunction (← pop)
  let signature := ((← heap).function ref).signature
  return .call (.function ref arguments) signature.returnsValue

def convert : Execute Continuation := do
  let byte ← readByte
  match NumericKind.ofByte? byte with
  | some kind => onOne (Arithmetic.convert kind)
  | none => invalid ("unknown numeric kind " ++ toString byte.toNat)

/-- A jump counts from behind its operand. -/
def jumpIfFalse : Execute Continuation := do
  let distance := (← readWord).toNat
  unless ← popBool do
    moveTo ((← frame).position + distance)
  return .next

def loop : Execute Continuation := do
  let distance := (← readWord).toNat
  let position := (← frame).position
  if distance ≤ position then
    moveTo (position - distance)
    return .next
  else invalid "loop target before start of code"

def pushing (value : Execute Value) : Execute Continuation := do
  push (← value)
  return .next

/-- One instruction, its opcode already read. -/
def operation (opcode : Opcode) : Execute Continuation := do
  match opcode with
  | .constant => pushing do constant (← readByte).toNat
  | .constantWide => pushing do constant (← readWord).toNat
  | .pushNull => pushing (return .null)
  | .pushTrue => pushing (return .bool true)
  | .pushFalse => pushing (return .bool false)
  | .pushDefault => pushing (return Catalog.defaultValue (← readHash))
  | .pop =>
      let _ ← pop
      return .next
  | .dup =>
      let top ← pop
      push top
      push top
      return .next
  | .getArg => pushing do getArgument (← readByte)
  | .setArg =>
      let slot ← readByte
      setArgument slot (← popCopied)
      return .next
  | .getLocal => pushing do getLocal (← readWord)
  | .setLocal =>
      let slot ← readWord
      setLocal slot (← popCopied)
      return .next
  | .add | .sub | .mul | .div | .rem | .bitAnd | .bitOr | .bitXor | .shl | .shr =>
      onTwo (Arithmetic.binary opcode)
  | .neg | .not | .bitNot => onOne (Arithmetic.unary opcode)
  | .eq => onTwo fun left right => .ok (.bool (left.equals right))
  | .lt | .gt => onTwo fun left right => return .bool (← Arithmetic.compare opcode left right)
  | .convert => convert
  | .jump =>
      let distance := (← readWord).toNat
      moveTo ((← frame).position + distance)
      return .next
  | .jumpIfFalse => jumpIfFalse
  | .loop => loop
  | .callStatic => callStatic catalog
  | .callMethod => callOnReceiver catalog false
  | .callVirtual => callOnReceiver catalog true
  | .callUnit => callUnit
  | .callSelf => callSelf
  | .new => new catalog
  | .returnValue => return .leave (← pop)
  | .returnVoid => return .leave .void
  | .getField => getField catalog
  | .setField => setField catalog
  | .getProperty => getProperty catalog false
  | .getPropertyVirtual => getProperty catalog true
  | .getStaticProperty => getStaticProperty catalog
  | .setProperty => setProperty catalog false
  | .setPropertyVirtual => setProperty catalog true
  | .setStaticProperty => setStaticProperty catalog
  | .newArray => newArray
  | .loadElement => loadElement
  | .storeElement => storeElement
  | .loadDelegate => loadDelegate
  | .invokeDelegate => invokeDelegate

def instruction : Execute Continuation := do
  operation catalog (← readOpcode)

end Execute
end OpMachine
