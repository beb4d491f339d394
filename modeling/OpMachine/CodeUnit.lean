import OpMachine.Chunk
import OpMachine.Symbol

namespace OpMachine

/-!
Code units: sealed results of compilation.

A unit is made for each top-level method or expression and for each anonymous
function.  Code refers to the anonymous functions and to the other methods it
calls by their position in the tables of its own method.
-/

/-- The cell that remembers the function made from an anonymous function.  A
unit with a closure instance has one; otherwise the session supplies it. -/
inductive CellId where
  | unit (id : Nat)
  | loose (session index : Nat)
deriving DecidableEq, Hashable, Inhabited

mutual

/-- The code of a method and all that it refers to. -/
structure CompiledMethod where
  name : String
  /-- The number of declared parameters, without the receiver. -/
  parameterCount : Nat
  /-- Whether the receiver occupies the first argument slot. -/
  hasReceiver : Bool
  localCount : Nat
  returnsValue : Bool
  chunk : Chunk
  pool : ConstantPool
  lambdas : List CompiledLambda
  callees : List CompiledMethod

/-- An anonymous function compiled into a unit of its own. -/
structure CompiledLambda where
  symbol : SymbolId
  unit : CodeUnit
  method : CompiledMethod
  delegateType : TypeHash
  signature : Signature
  cell : CellId

structure CodeUnit where
  id : Nat
  name : String
  methods : List CompiledMethod
  /-- Whether the unit has an instance and a cell for its function. -/
  hasDelegate : Bool

end

instance : Inhabited CompiledMethod :=
  ⟨{ name := "", parameterCount := 0, hasReceiver := false, localCount := 0
     returnsValue := false, chunk := {}, pool := {}, lambdas := [], callees := [] }⟩

def CompiledMethod.argumentSlots (method : CompiledMethod) : Nat :=
  method.parameterCount + if method.hasReceiver then 1 else 0

def CodeUnit.receiver (unit : CodeUnit) : Value :=
  if unit.hasDelegate then .object (.closure unit.id) else .null

/-- The receiver of the calls, which is the instance of the unit. -/
def CompiledLambda.receiver (lambda : CompiledLambda) : Value := lambda.unit.receiver
end OpMachine
