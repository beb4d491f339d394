import OpMachine.HostFunction
import OpMachine.TypeRef

namespace OpMachine

/-!
Definitions of host types.

A definition lists what a host offers under one name: constructors, methods,
fields and properties, each with the host function that does its work.  It is
put together step by step, and a step sees the key as it is at that moment, so
generic parameters that are declared later do not change the identity of the
host functions added before.
-/

structure TypeTraits where
  isAbstract : Bool := false
  isSealed : Bool := false
  isValueType : Bool := false
  isInterface : Bool := false
  isDelegate : Bool := false
  /-- A value type that still admits an absent value. -/
  isNullable : Bool := false
  isGenericDefinition : Bool := false
  isArray : Bool := false
  isPrimitive : Bool := false
deriving DecidableEq, Inhabited

def TypeTraits.names (traits : TypeTraits) : List String :=
  [(traits.isAbstract, "ABSTRACT"), (traits.isSealed, "SEALED"),
    (traits.isValueType, "VALUE_TYPE"), (traits.isInterface, "INTERFACE"),
    (traits.isDelegate, "DELEGATE"), (traits.isNullable, "NULLABLE"),
    (traits.isGenericDefinition, "GENERIC_DEFINITION"), (traits.isArray, "ARRAY"),
    (traits.isPrimitive, "PRIMITIVE")].filterMap fun (present, name) =>
      if present then some name else none

structure MethodDefinition where
  name : String
  parameters : List TypeRef := []
  returnType : TypeRef := .void
  isStatic : Bool := false
  isVirtual : Bool := false
  genericParameters : List String := []
  /-- The host function; the method that invokes a delegate has none. -/
  function : Option HostFunction := none

structure ConstructorDefinition where
  parameters : List TypeRef
  function : HostFunction

structure FieldDefinition where
  name : String
  type : TypeRef
  access : SlotAccess

structure PropertyDefinition where
  name : String
  type : TypeRef
  isStatic : Bool := false
  isVirtual : Bool := false
  getter : Option HostFunction := none
  setter : Option MemberSetter := none

structure InvokeSignature where
  parameters : List TypeRef
  returnType : TypeRef
deriving Inhabited

/-- A type as a host describes it, before it is registered. -/
structure TypeDefinition where
  name : String
  traits : TypeTraits := {}
  /-- The key of the type this one derives from. -/
  base : Option String := none
  genericParameters : List String := []
  /-- The rank of an array definition, zero for everything else. -/
  arrayRank : Nat := 0
  constructors : List ConstructorDefinition := []
  methods : List MethodDefinition := []
  fields : List FieldDefinition := []
  properties : List PropertyDefinition := []
  invoke : Option InvokeSignature := none

namespace TypeDefinition

variable (definition : TypeDefinition)

/-- The name under which a definition is found. -/
def key : String :=
  if definition.arrayRank = 0 then
    genericKey definition.name definition.genericParameters.length
  else
    TypeHash.arrayKey definition.arrayRank

def hash : TypeHash := .ofName definition.key

/-! ## Kinds of types -/

variable (name : String)

def ofClass : TypeDefinition := { name }

/-- A sealed type whose objects are duplicated whenever they are stored. -/
def ofValueType : TypeDefinition :=
  { name, traits := { isValueType := true, isSealed := true } }

def ofInterface : TypeDefinition :=
  { name, traits := { isInterface := true, isAbstract := true } }

/-- A holder of static members, without instances. -/
def ofStatic : TypeDefinition :=
  { name, traits := { isAbstract := true, isSealed := true } }

def ofPrimitive (isValueType : Bool) : TypeDefinition :=
  { name, traits := { isPrimitive := true, isSealed := true, isValueType } }

/-- A delegate type, whose one method invokes it. -/
def ofDelegate (parameters : List TypeRef) (returnType : TypeRef) : TypeDefinition :=
  { name
    traits := { isDelegate := true, isSealed := true }
    methods := [{ name := "Invoke", parameters, returnType }]
    invoke := some ⟨parameters, returnType⟩ }

def ofArray (rank : Nat) : TypeDefinition :=
  { name := "array"
    traits := { isArray := true, isSealed := true, isGenericDefinition := true }
    genericParameters := ["T"]
    arrayRank := rank }

/-! ## Traits -/

def abstract : TypeDefinition :=
  { definition with traits := { definition.traits with isAbstract := true, isSealed := false } }

def sealed : TypeDefinition :=
  { definition with traits := { definition.traits with isSealed := true } }

def nullable : TypeDefinition :=
  { definition with traits := { definition.traits with isNullable := true } }

def derivedFrom (base : String) : TypeDefinition :=
  { definition with base := some base }

def genericOver (names : List String) : TypeDefinition :=
  { definition with
    genericParameters := names
    traits := { definition.traits with isGenericDefinition := true } }

/-! ## Members -/

def addMethod (method : MethodDefinition) (action : HostAction) : TypeDefinition :=
  let id := TypeHash.ofName (definition.key ++ "::" ++ method.name)
  { definition with
    methods := definition.methods ++ [{ method with function := some ⟨id, action⟩ }] }

variable (name : String)

def getterFunction (action : HostAction) : HostFunction :=
  ⟨.ofName (definition.key ++ "::get_" ++ name), action⟩

def memberSetter (access : SlotAccess) : MemberSetter :=
  ⟨.ofName (definition.key ++ "::set_" ++ name), access⟩

def addStaticProperty (type : TypeRef) (action : HostAction) : TypeDefinition :=
  { definition with
    properties := definition.properties ++
      [{ name, type, isStatic := true, getter := some (definition.getterFunction name action) }] }

def addProperty (type : TypeRef) (access : SlotAccess) (isVirtual : Bool) : TypeDefinition :=
  { definition with
    properties := definition.properties ++
      [{ name, type, isVirtual
         getter := some (definition.getterFunction name (.getMember access)) }] }

def addWritableProperty (type : TypeRef) (access : SlotAccess) : TypeDefinition :=
  { definition with
    properties := definition.properties ++
      [{ name, type
         getter := some (definition.getterFunction name (.getMember access))
         setter := some (definition.memberSetter name access) }] }

def addField (type : TypeRef) (access : SlotAccess) : TypeDefinition :=
  { definition with fields := definition.fields ++ [{ name, type, access }] }

def addConstructorAction (parameters : List TypeRef) (action : HostAction) : TypeDefinition :=
  let id := TypeHash.ofName
    (definition.name ++ "::.ctor/" ++ toString parameters.length)
  { definition with constructors := definition.constructors ++ [⟨parameters, ⟨id, action⟩⟩] }

/-- One more constructor, which stores its arguments in slots. -/
def addConstructor (kind : PayloadKind)
    (parameters : List TypeRef) (slots : List (String × Shape)) : TypeDefinition :=
  definition.addConstructorAction parameters
    (.construct definition.name kind definition.traits.isValueType slots)

end TypeDefinition
end OpMachine
