import OpMachine.Machine.Host
import OpMachine.TypeDefinition

namespace OpMachine
namespace Sample

/-!
Sample host types.

A small world in which every part of a type definition occurs: functions over
sequences, a value type, a class with two descendants that override some of
its members, a record of settings of every scalar shape, overloaded generic
methods, and a generic class.  Objects keep their slots in one of two kinds of
payload; the caller names both.  The functions of these types are native, and
`natives` says what they do.
-/

/-! ## Native functions -/

open Conversion

/-- The wrapping sum of some integers. -/
def sumOf : Int32 -> List Value -> Except ConversionError Int32
  | total, [] => .ok total
  | total, value :: rest => do sumOf (total + (← readInt value)) rest

/-- A function that goes on with what it read, or fails. -/
def reading {α : Type} (heap : Heap) (next : α -> HostStep) : Except RuntimeError α -> HostStep
  | .ok value => next value
  | .error error => .ended (.error error) heap

/-- The calls of a function on the items of a list, whose results are
collected.  The first failure ends them. -/
def mapping (function : FunctionRef) : List Value -> Array Value -> Heap -> HostStep
  | [], results, heap =>
      let (value, heap) := heap.addVector .int results
      .ended (.ok value) heap
  | item :: rest, results, heap => .calling function [item] heap fun result heap =>
      reading heap (fun value => mapping function rest (results.push value) heap) result

/-- The text of a label and of some values. -/
def described (label : String) (values : List Value) : String :=
  label ++ ":" ++ "|".intercalate (values.map fun value => String.ofList (Format.plain value))

/-- What the functions do, given the words for shapes. -/
def natives (shape? : String -> Option Shape) : Natives := fun name captured call heap =>
  let ends (result : Except RuntimeError Value) : HostStep := .ended result heap
  match name, captured with
  | "void", [] => ends (.ok .void)
  | "const", [value] => ends (.ok value)
  | "arg", [.int index] => ends (call.argument index.toInt.toNat)
  | "typed", [.string word, .int index] =>
      .of heap (call.readShape index.toInt.toNat ((shape? word).getD .any) heap)
  | "argc", [] => ends (.ok (.int (.ofNat call.arguments.length)))
  | "this", [] => ends call.receiverValue
  | "sum", [] => ends do
      let items ← heap.sequenceItems (← call.argument 0)
      match sumOf 0 items.toList with
      | .ok total => return .int total
      | .error error => throw (.conversion error)
  | "apply", [] =>
      reading heap (.calling · (call.arguments.drop 1) heap .ended) (call.read 0 readFunction)
  | "map", [] =>
      reading heap (fun (function, items) => mapping function items.toList #[] heap) do
        let function ← call.read 0 readFunction
        return (function, ← heap.sequenceItems (← call.argument 1))
  | "text", [.string label] => ends (.ok (.string (described label call.arguments)))
  | "get", [.string kind, .string slot] => ends do
      let (_, payload) ← call.receiverPayload ⟨kind⟩ heap
      return (payload.slots.get? slot).getD .null
  | "set", [.string kind, .string slot] => .of heap do
      let value ← call.argument 0
      let (ref, payload) ← call.receiverPayload ⟨kind⟩ heap
      return (.void, heap.setPayload ref (payload.store slot value))
  | "fail", [.string message] => ends (.error (.host message))
  | _, _ => ends (.error (.host name))

/-- A function that goes by one name and brings nothing along. -/
def plain (name : String) : HostAction := .native name []

def constant (value : Value) : HostAction := .native "const" [value]

def argument (index : Int32) : HostAction := .native "arg" [.int index]

/-- An argument read in the shape of a word. -/
def typed (word : String) (index : Int32) : HostAction :=
  .native "typed" [.string word, .int index]

def describe (label : String) : HostAction := .native "text" [.string label]

def readSlot (kind : PayloadKind) (slot : String) : HostAction :=
  .native "get" [.string kind.name, .string slot]

def writeSlot (kind : PayloadKind) (slot : String) : HostAction :=
  .native "set" [.string kind.name, .string slot]

def fail (message : String) : HostAction := .native "fail" [.string message]

/-! ## Types -/

variable (name : String)

def static (parameters : List TypeRef) (returnType : TypeRef) : MethodDefinition :=
  { name, parameters, returnType, isStatic := true }

def generic (names : List String) (parameters : List TypeRef)
    (returnType : TypeRef) : MethodDefinition :=
  { static name parameters returnType with genericParameters := names }

/-- A method that gives text and that descendants may override. -/
def virtualText (parameters : List TypeRef) : MethodDefinition :=
  { name, parameters, returnType := .named "string", isVirtual := true }

variable (kind : PayloadKind)

def fixed (value : Value) : SlotAccess :=
  { kind, slot := "", shape := .any, fixed := some value }

def int : TypeRef := .named "int"

def double : TypeRef := .named "double"

def string : TypeRef := .named "string"

def object : TypeRef := .named "object"

def sequenceOf (item : TypeRef) : TypeRef := .applied "IEnumerable" [item]

def intToInt : TypeRef := .applied "Func" [int, int]

def sequences : TypeDefinition :=
  (TypeDefinition.ofStatic "Sequence")
    |>.addMethod (static "Sum" [sequenceOf int] int) (plain "sum")
    |>.addMethod (static "Apply" [intToInt, int] int) (plain "apply")
    |>.addMethod (static "Map" [intToInt, sequenceOf int] (.vector int)) (plain "map")
    |>.addMethod (generic "First" ["T"] [sequenceOf (.methodParameter 0)] (.methodParameter 0))
        (argument 0)

/-- A point, duplicated whenever it is stored. -/
def point : TypeDefinition :=
  (TypeDefinition.ofValueType "Point")
    |>.sealed
    |>.addConstructor kind [int, int] [("X", .int), ("Y", .int)]
    |>.addField "X" int { kind, slot := "X", shape := .int }
    |>.addWritableProperty "Y" int { kind, slot := "Y", shape := .int }
    |>.addMethod { name := "SetX", parameters := [int], returnType := .void }
        (writeSlot kind "X")
    |>.addMethod { name := "GetX", parameters := [], returnType := int }
        (readSlot kind "X")

/-- An abstract class with virtual and plain members. -/
def shape : TypeDefinition :=
  (TypeDefinition.ofClass "Shape")
    |>.abstract
    |>.addProperty "Area" double (fixed kind (.double 0)) true
    |>.addWritableProperty "Tag" string { kind, slot := "Tag", shape := .string }
    |>.addMethod (virtualText "Name" []) (describe "shape")
    |>.addMethod { name := "Plain", parameters := [], returnType := string }
        (describe "shape-plain")
    |>.addMethod (virtualText "Scale" [int]) (describe "shape-scale")

/-- A descendant that overrides some members and hides others. -/
def circle : TypeDefinition :=
  (TypeDefinition.ofClass "Circle")
    |>.derivedFrom "Shape"
    |>.sealed
    |>.addConstructor kind [double] [("Radius", .double)]
    |>.addProperty "Area" double { kind, slot := "Radius", shape := .double } true
    |>.addProperty "Tag" string (fixed kind (.string "circle")) false
    |>.addMethod (virtualText "Name" []) (describe "circle")
    |>.addMethod { name := "Plain", parameters := [], returnType := string }
        (describe "circle-plain")
    |>.addMethod (virtualText "Scale" [double]) (describe "circle-scale-double")

/-- A descendant that overrides nothing. -/
def square : TypeDefinition :=
  (TypeDefinition.ofClass "Square")
    |>.derivedFrom "Shape"
    |>.addConstructor kind [] []
    |>.addConstructor kind [int] [("Side", .int)]
    |>.addField "Side" int { kind, slot := "Side", shape := .int }

/-- A record with a member of every scalar shape. -/
def settings : TypeDefinition :=
  let slot (slot : String) (shape : Shape) : SlotAccess := { kind, slot, shape }
  (TypeDefinition.ofClass "Settings")
    |>.sealed
    |>.addConstructor kind [] []
    |>.addWritableProperty "Name" string (slot "Name" .string)
    |>.addWritableProperty "Retries" int (slot "Retries" .int)
    |>.addWritableProperty "Ratio" double (slot "Ratio" .double)
    |>.addField "Label" string (slot "Label" .string)
    |>.addField "Big" (.named "int64") (slot "Big" .int64)
    |>.addField "Small" (.named "uint") (slot "Small" .uint)
    |>.addField "Huge" (.named "uint64") (slot "Huge" .uint64)
    |>.addField "Half" (.named "float") (slot "Half" .float)
    |>.addField "On" (.named "bool") (slot "On" .bool)
    |>.addField "Maybe" (.applied "Nullable" [int]) (slot "Maybe" (.optional .int))
    |>.addProperty "Fixed" int (fixed kind (.int 77)) false
    |>.addStaticProperty "Version" int (constant (.int 3))
    |>.addField "Any" object (slot "Any" .any)
    |>.addField "Loose" int (slot "Loose" .int64)

/-- Static members of all kinds, with overloads that compete. -/
def host : TypeDefinition :=
  let first : TypeRef := .methodParameter 0
  (TypeDefinition.ofStatic "Host")
    |>.addMethod (static "Pick" [int] string) (describe "int")
    |>.addMethod (generic "Pick" ["T"] [first] string) (describe "T")
    |>.addMethod (generic "Pick" ["T"] [.vector first] string) (describe "T[]")
    |>.addMethod (static "Pick" [int, string] string) (describe "int,string")
    |>.addMethod (generic "Pick" ["T"] [first, string] string) (describe "T,string")
    |>.addMethod (generic "Pick" ["T"] [int, first] string) (describe "int,T")
    |>.addMethod (generic "Pick" ["T", "U"] [first, .methodParameter 1] string)
        (describe "T,U")
    |>.addMethod (static "Log" [string] .void) (plain "void")
    |>.addMethod (static "Fail" [int] int) (fail "host failure: é")
    |>.addMethod (static "Echo" [object] object) (argument 0)
    |>.addMethod (static "AsInt" [object] int) (typed "i32" 0)
    |>.addMethod (static "AsText" [object] string) (typed "String" 0)
    |>.addMethod (static "Run" [.applied "Func" [int]] int) (plain "apply")
    |>.addMethod (static "Each" [.applied "Proc" [int], int] .void) (plain "apply")
    |>.addStaticProperty "Answer" int (constant (.int 42))
    |>.addStaticProperty "Broken" int (fail "broken getter")

/-- A generic class that holds one item. -/
def box : TypeDefinition :=
  let item : TypeRef := .typeParameter 0
  (TypeDefinition.ofClass "Box")
    |>.genericOver ["T"]
    |>.addConstructor kind [] []
    |>.addConstructor kind [item] [("Item", .any)]
    |>.addField "Item" item { kind, slot := "Item", shape := .any }
    |>.addWritableProperty "Note" string { kind, slot := "Note", shape := .string }
    |>.addMethod { name := "Put", parameters := [item], returnType := .void }
        (writeSlot kind "Item")
    |>.addMethod { name := "Get", parameters := [], returnType := item }
        (readSlot kind "Item")
    |>.addMethod
        { name := "Both", parameters := [item, .methodParameter 0], returnType := string
          genericParameters := ["U"] }
        (describe "both")

/-- All sample types.  Squares keep their slots in the second kind of payload,
everything else in the first. -/
def types (first second : PayloadKind) : List TypeDefinition :=
  [sequences, point first, shape first, circle first, square second, settings first, host,
    box first]

end Sample
end OpMachine
