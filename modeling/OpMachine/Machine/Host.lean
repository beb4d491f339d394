import OpMachine.Conversion
import OpMachine.Format

namespace OpMachine

/-!
Host functions at work.

A host function ends with a result and a heap, or it wants a function called
first.  In that case it says how it goes on, with the result of the call,
whether that is a value or a failure, and with the heap that the call leaves.
What native functions do is a parameter: `Natives` has an answer for every name.
-/

/-- What a host function is called with. -/
structure HostCall where
  receiver : Option Value := none
  arguments : List Value := []
  /-- The type to be made, if the call is one of a constructor. -/
  constructedType : Option TypeHash := none

/-- How far a host function comes before it needs an answer. -/
inductive HostStep where
  | ended (result : Except RuntimeError Value) (heap : Heap)
  | calling (function : FunctionRef) (arguments : List Value) (heap : Heap)
      (resume : Except RuntimeError Value -> Heap -> HostStep)

/-- What the native functions of a host do, by their names and with the values
that they bring along. -/
abbrev Natives := String -> List Value -> HostCall -> Heap -> HostStep

/-- Native functions that do nothing. -/
def Natives.silent : Natives := fun _ _ _ heap => .ended (.ok .void) heap

namespace HostStep

/-- A function that ends at once.  If it fails, the heap is as it was. -/
def of (before : Heap) : Except RuntimeError (Value × Heap) -> HostStep
  | .ok (value, heap) => .ended (.ok value) heap
  | .error error => .ended (.error error) before

/-- The end that a host function comes to if its calls are answered. -/
def complete
    (answer : FunctionRef -> List Value -> Heap -> Except RuntimeError Value × Heap) :
    HostStep -> Except RuntimeError Value × Heap
  | ended result heap => (result, heap)
  | calling function arguments heap resume =>
      let (result, heap) := answer function arguments heap
      (resume result heap).complete answer

end HostStep

namespace HostCall

variable (call : HostCall)

/-- The argument at a position. -/
def argument (index : Nat) : Except RuntimeError Value :=
  match call.arguments[index]? with
  | some value => .ok value
  | none => .error (.typeMismatch ("argument " ++ toString index)
      (toString call.arguments.length ++ " arguments"))

/-- The argument at a position, converted. -/
def read {α : Type} (call : HostCall) (index : Nat)
    (reading : Value -> Except ConversionError α) : Except RuntimeError α := do
  match reading (← call.argument index) with
  | .ok value => .ok value
  | .error error => .error (.conversion error)

/-- The argument at a position in a shape.  Arrays are made anew. -/
def readShape (index : Nat) (shape : Shape) (heap : Heap) : Except RuntimeError (Value × Heap) :=
  call.read index fun value => shape.read value heap

/-- The receiver, which a static call has not. -/
def receiverValue : Except RuntimeError Value :=
  match call.receiver with
  | some value => .ok value
  | none => .error (.nullReference "instance call without receiver")

/-- The receiver as an object with a payload of a kind. -/
def receiverPayload (kind : PayloadKind) (heap : Heap) :
    Except RuntimeError (ObjectRef × Payload) := do
  match ← call.receiverValue with
  | .object ref => return (ref, ← heap.payload kind ref)
  | other => .error (.typeMismatch kind.name other.kindName)

end HostCall

namespace Payload

/-- The slots of a record; other payloads have none. -/
def slots : Payload -> Slots
  | .record _ slots => slots
  | _ => []

/-- The content of a text; other payloads have none. -/
def content : Payload -> String
  | .text content => content
  | _ => ""

/-- A slot of a record replaced or added. -/
def store (payload : Payload) (slot : String) (value : Value) : Payload :=
  match payload with
  | .record kind slots => .record kind (slots.put slot value)
  | other => other

end Payload

namespace SlotAccess

variable (access : SlotAccess)

/-- The value of a member.  A slot that is missing, or whose value does not
have the shape of the member, reads as the default of the shape. -/
def load (payload : Payload) (heap : Heap) : Value × Heap :=
  match access.fixed with
  | some value => (value, heap)
  | none =>
      match payload.slots.get? access.slot with
      | none => access.shape.defaultValue heap
      | some value =>
          match access.shape.read value heap with
          | .ok result => result
          | .error _ => access.shape.defaultValue heap

/-- The member of an object. -/
def get (heap : Heap) (ref : ObjectRef) : Except RuntimeError (Value × Heap) := do
  let payload ← heap.payload access.kind ref
  return access.load payload heap

/-- The member of an object replaced.  The value is converted first. -/
def set (heap : Heap) (ref : ObjectRef) (value : Value) : Except RuntimeError Heap := do
  match access.shape.read value heap with
  | .error error => .error (.conversion error)
  | .ok (value, heap) =>
      let payload ← heap.payload access.kind ref
      return heap.setPayload ref (payload.store access.slot value)

end SlotAccess

open Conversion

namespace HostAction

/-- The slots of a new record, each read from the argument at its position. -/
def readSlots (call : HostCall) : Nat -> List (String × Shape) -> Slots -> Heap ->
    Except RuntimeError (Slots × Heap)
  | _, [], slots, heap => .ok (slots, heap)
  | index, (slot, shape) :: rest, slots, heap => do
      let (value, heap) ← call.readShape index shape heap
      readSlots call (index + 1) rest (slots.put slot value) heap

/-- The type that a constructor has to make. -/
def constructedType (call : HostCall) (owner : String) : Except RuntimeError TypeHash :=
  match call.constructedType with
  | some type => .ok type
  | none => .error (.typeMismatch ("constructor call for " ++ owner) "plain call")

/-- A new object of a type, with its payload. -/
def made (heap : Heap) (type : TypeHash) (payload : Payload) (isValue : Bool) : Value × Heap :=
  let (ref, heap) := heap.addObject ⟨type, payload, isValue⟩
  (.object ref, heap)

/-- The formatted first argument appended to the text that is the receiver. -/
def append (call : HostCall) (heap : Heap) (aligned formatted : Bool) :
    Except RuntimeError (Value × Heap) := do
  let alignment ← if aligned then some <$> call.read 1 readInt else pure none
  let position := if aligned then 2 else 1
  let format ← if formatted then some <$> call.read position readString else pure none
  let text ← Format.value (← call.argument 0) alignment format
  let (ref, payload) ← call.receiverPayload .text heap
  return (.void, heap.setPayload ref (.text (payload.content ++ text)))

/-- A host function at work until it ends or needs an answer. -/
def perform (natives : Natives) (action : HostAction) (call : HostCall) (heap : Heap) : HostStep :=
  match action with
  | .native name captured => natives name captured call heap
  | .construct owner kind isValue slots => .of heap do
      let type ← constructedType call owner
      let (slots, heap) ← readSlots call 0 slots [] heap
      return made heap type (.record kind slots) isValue
  | .getMember access => .of heap do
      let (_, payload) ← call.receiverPayload access.kind heap
      return access.load payload heap
  | .setMember access => .of heap do
      let (value, heap) ← call.readShape 0 access.shape heap
      let (ref, payload) ← call.receiverPayload access.kind heap
      return (.void, heap.setPayload ref (payload.store access.slot value))
  | .newText owner => .of heap do
      let type ← constructedType call owner
      let _ ← call.read 0 readInt
      let _ ← call.read 1 readInt
      return made heap type (.text "") true
  | .appendLiteral => .of heap do
      let text ← call.read 0 readString
      let (ref, payload) ← call.receiverPayload .text heap
      return (.void, heap.setPayload ref (.text (payload.content ++ text)))
  | .appendFormatted aligned formatted => .of heap (append call heap aligned formatted)
  | .takeText => .of heap do
      let (ref, payload) ← call.receiverPayload .text heap
      return (.string payload.content, heap.setPayload ref (.text ""))

end HostAction
end OpMachine
