import OpMachine.Factory.Basic

namespace OpMachine

/-!
Functions bound to the shapes a host uses.

A compiled function can be bound when its parameters have exactly the types of
the argument shapes and it returns a value exactly when the result shape is
one of a value.
-/

/-- The types in which a host calls a function. -/
structure FunctionShape where
  arguments : List Shape
  result : Shape

namespace FunctionShape

def parameters (shape : FunctionShape) : List TypeHash :=
  shape.arguments.map fun argument => argument.typeHash?.getD .empty

def describe (parameters : List TypeHash) (returnsValue : Bool) : String :=
  "(" ++ ", ".intercalate (parameters.map TypeHash.text) ++ ") -> "
    ++ (if returnsValue then "value" else "void")

/-- The check that a function with a signature can be bound to a shape. -/
def check (shape : FunctionShape) (signature : Signature) : Except ConversionError Unit :=
  let returnsValue := !shape.result.isUnit
  if signature.parameters = shape.parameters ∧ signature.returnsValue = returnsValue then
    .ok ()
  else
    .error (.signatureMismatch (describe shape.parameters returnsValue)
      (describe signature.parameters signature.returnsValue))

def readArguments : List Shape -> List Value -> Heap ->
    Except ConversionError (List Value × Heap)
  | [], _, heap => .ok ([], heap)
  | shape :: shapes, values, heap => do
      let (value, heap) ← shape.read (values.headD .void) heap
      let (rest, heap) ← readArguments shapes values.tail heap
      return (value :: rest, heap)

end FunctionShape

namespace Request

/-- A function made to be called in a shape. -/
def bind (source : Source) (id : SyntaxId) (shape : FunctionShape) : Request FunctionRef := do
  let function ← create source id
  match shape.check ((← get).heap.function function).signature with
  | .ok () => return function
  | .error error => throw (.conversion error)

end Request

inductive BoundResult where
  | value (value : Value)
  | refused (error : ConversionError)
  | failed (error : RuntimeError)

/-- A bound function called, for at most a number of steps.  Arguments that are
missing are read as nothing. -/
def Factory.callBound (factory : Factory) (steps : Nat) (function : FunctionRef)
    (shape : FunctionShape) (arguments : List Value) : Option (BoundResult × Factory) :=
  match FunctionShape.readArguments shape.arguments arguments factory.heap with
  | .error error => some (.refused error, factory)
  | .ok (values, heap) =>
      match { factory with heap }.invoke steps function values with
      | none => none
      | some (.error error, factory) => some (.failed error, factory)
      | some (.ok value, factory) =>
          match shape.result.read value factory.heap with
          | .error error => some (.failed (.conversion error), factory)
          | .ok (value, heap) => some (.value value, { factory with heap })
end OpMachine
