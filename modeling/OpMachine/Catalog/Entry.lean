import OpMachine.Descriptor
import OpMachine.Symbol
import OpMachine.TypeDefinition

namespace OpMachine

/-!
Entries of a catalog: registered types and members with their identities.
-/

inductive MethodBody where
  | host (function : HostFunction)
  /-- The receiver is a function, and it is called. -/
  | delegateInvoke

/-- A registered method or constructor, or a generic method closed over type
arguments. -/
structure MethodEntry where
  hash : TypeHash
  name : String
  owner : TypeHash
  isStatic : Bool
  isVirtual : Bool
  parameters : List TypeRef
  returnType : TypeRef
  genericParameters : List String
  /-- The generic method this one was closed from. -/
  definition : Option TypeHash
  typeArguments : List TypeHash
  body : MethodBody

namespace MethodEntry

variable (method : MethodEntry)

def isConstructor : Bool :=
  method.name = MethodSymbol.constructorName

def returnsValue : Bool := !method.returnType.isVoid

def isGenericDefinition : Bool := !method.genericParameters.isEmpty

/-- What overrides of a method have in common besides its name. -/
def signature : List TypeHash :=
  method.parameters.map TypeRef.signatureHash

end MethodEntry

structure FieldEntry where
  hash : TypeHash
  name : String
  owner : TypeHash
  type : TypeRef
  access : SlotAccess

structure PropertyEntry where
  hash : TypeHash
  name : String
  owner : TypeHash
  type : TypeRef
  isStatic : Bool
  isVirtual : Bool
  getter : Option HostFunction
  setter : Option MemberSetter

/-- A registered type, or a generic type closed over type arguments.  A closed
type has no members of its own; its definition declares them. -/
structure HostType where
  hash : TypeHash
  /-- The name without the number of generic parameters. -/
  name : String
  displayName : String
  traits : TypeTraits
  base : Option TypeHash
  genericParameters : List String
  definition : Option TypeHash
  typeArguments : List TypeHash
  arrayRank : Nat
  constructors : List MethodEntry
  methods : List MethodEntry
  fields : List FieldEntry
  properties : List PropertyEntry
  invoke : Option InvokeSignature

namespace HostType

variable (type : HostType)

def isClosedInstance : Bool := type.definition.isSome

/-- Whether a member of the type may be left without a value: references and
nullable values may. -/
def admitsNull : Bool :=
  !type.traits.isValueType || type.traits.isNullable

/-- Whether access to the members goes through the type at run time. -/
def dispatchesVirtually : Bool :=
  type.traits.isAbstract || !type.traits.isSealed

end HostType
end OpMachine
