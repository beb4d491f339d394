import OpMachine.Shape

namespace OpMachine

/-!
Host functions.

A host offers functions that code can call.  Constructors, members and the
builder of texts have actions of their own, which are data.  Every other
function is native: it goes by a name, brings some values with it, and what it
does is decided by the host that runs the code.
-/

/-- The type of a payload, known to messages by its name. -/
structure PayloadKind where
  name : String
deriving DecidableEq, Inhabited, Repr

/-- The payload of a text under construction. -/
def PayloadKind.text : PayloadKind := ⟨"dynemit_registry::system::InterpolatedText"⟩

/-- The payload of the object that anonymous functions are bound to. -/
def PayloadKind.closure : PayloadKind := ⟨"closure instance"⟩

/-- How a member reaches its slot in the payload of a receiver. -/
structure SlotAccess where
  kind : PayloadKind
  slot : String
  shape : Shape
  /-- A value that reading gives whatever the slot holds. -/
  fixed : Option Value := none

/-- What a host function does. -/
inductive HostAction where
  /-- Whatever the host does under a name, with values that it brings along. -/
  | native (name : String) (captured : List Value)
  /-- Builds an object whose slots are set from the arguments in order. -/
  | construct (owner : String) (kind : PayloadKind) (isValue : Bool)
      (slots : List (String × Shape))
  | getMember (access : SlotAccess)
  | setMember (access : SlotAccess)
  | newText (owner : String)
  | appendLiteral
  /-- Appends the formatted first argument to the text that is the receiver.
  The arguments after it are the alignment and the format, if there are any. -/
  | appendFormatted (aligned formatted : Bool)
  /-- Returns the text that is the receiver and empties it. -/
  | takeText

/-- A host function with its identity. -/
structure HostFunction where
  id : TypeHash
  action : HostAction

/-- The setter of a property, which stores its argument in a slot. -/
structure MemberSetter where
  id : TypeHash
  access : SlotAccess

def MemberSetter.function (setter : MemberSetter) : HostFunction :=
  ⟨setter.id, .setMember setter.access⟩

end OpMachine
