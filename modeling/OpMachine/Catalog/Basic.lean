import Std.Data.HashMap
import OpMachine.Catalog.Entry
import OpMachine.Error
import OpMachine.SystemTypes

namespace OpMachine

/-!
Catalogs of host types.

The registered types are fixed when a catalog is made.  Closed generic types
and closed generic methods are added when they are first asked for, under
hashes that depend on nothing but the definition and the arguments.
-/

/-- The types that a host offers, with their members, by hash. -/
structure Catalog where
  types : Std.HashMap TypeHash HostType := {}
  names : Std.HashMap String TypeHash := {}
  methods : Std.HashMap TypeHash MethodEntry := {}
  fields : Std.HashMap TypeHash FieldEntry := {}
  properties : Std.HashMap TypeHash PropertyEntry := {}
  /-- The closed generic types made so far. -/
  instances : Std.HashMap TypeHash HostType := {}
  /-- The closed generic methods made so far. -/
  closedMethods : Std.HashMap TypeHash MethodEntry := {}
deriving Inhabited

namespace Catalog

/-! ## Registration -/

variable (owner : TypeHash)

def constructorEntry (constructor : ConstructorDefinition) : MethodEntry :=
  { hash := .ofConstructor owner (constructor.parameters.map TypeRef.signatureHash)
    name := MethodSymbol.constructorName
    owner
    isStatic := false
    isVirtual := false
    parameters := constructor.parameters
    returnType := .of owner
    genericParameters := []
    definition := none
    typeArguments := []
    body := .host constructor.function }

def methodEntry (method : MethodDefinition) : MethodEntry :=
  { hash := .ofMethod owner method.name (method.parameters.map TypeRef.signatureHash)
    name := method.name
    owner
    isStatic := method.isStatic
    isVirtual := method.isVirtual
    parameters := method.parameters
    returnType := method.returnType
    genericParameters := method.genericParameters
    definition := none
    typeArguments := []
    body := match method.function with
      | some function => .host function
      | none => .delegateInvoke }

def fieldEntry (field : FieldDefinition) : FieldEntry :=
  { hash := .ofMember owner field.name
    name := field.name
    owner
    type := field.type
    access := field.access }

def propertyEntry (property : PropertyDefinition) : PropertyEntry :=
  { hash := .ofMember owner property.name
    name := property.name
    owner
    type := property.type
    isStatic := property.isStatic
    isVirtual := property.isVirtual
    getter := property.getter
    setter := property.setter }

variable (typeName : String)

/-- A method or constructor put under its hash, which must be free. -/
def addMethod (catalog : Catalog) (entry : MethodEntry) : Except RegistrationError Catalog :=
  if catalog.methods.contains entry.hash then
    .error (.duplicateMember typeName entry.name)
  else
    .ok { catalog with methods := catalog.methods.insert entry.hash entry }

def addField (catalog : Catalog) (entry : FieldEntry) : Except RegistrationError Catalog :=
  if catalog.fields.contains entry.hash then
    .error (.duplicateMember typeName entry.name)
  else
    .ok { catalog with fields := catalog.fields.insert entry.hash entry }

def addProperty (catalog : Catalog) (entry : PropertyEntry) : Except RegistrationError Catalog :=
  if catalog.fields.contains entry.hash || catalog.properties.contains entry.hash then
    .error (.duplicateMember typeName entry.name)
  else
    .ok { catalog with properties := catalog.properties.insert entry.hash entry }

variable (definition : TypeDefinition)

def definitionText : String :=
  if 0 < definition.arrayRank then
    "T" ++ Descriptor.brackets definition.arrayRank
  else if definition.genericParameters.isEmpty then
    definition.name
  else
    definition.name ++ "<" ++ ", ".intercalate definition.genericParameters ++ ">"

variable (catalog : Catalog)

def baseOf (definition : TypeDefinition) : Except RegistrationError (Option TypeHash) :=
  match definition.base with
  | none => .ok none
  | some base =>
      match catalog.names[base]? with
      | some hash => .ok (some hash)
      | none => .error (.typeNotFound base definition.key)

def hostType (base : Option TypeHash) : HostType :=
  let owner := definition.hash
  { hash := owner
    name := definition.name
    displayName := definitionText definition
    traits := definition.traits
    base
    genericParameters := definition.genericParameters
    definition := none
    typeArguments := []
    arrayRank := definition.arrayRank
    constructors := definition.constructors.map (constructorEntry owner)
    methods := definition.methods.map (methodEntry owner)
    fields := definition.fields.map (fieldEntry owner)
    properties := definition.properties.map (propertyEntry owner)
    invoke := definition.invoke }

/-- A definition registered with its members: constructors, methods, fields
and properties, in this order.  No delegate is refused for want of a signature, as
`TypeDefinition.ofDelegate` gives it one. -/
def register (definition : TypeDefinition) : Except RegistrationError Catalog := do
  let key := definition.key
  let type := hostType definition (← catalog.baseOf definition)
  let catalog ← type.constructors.foldlM (addMethod key) catalog
  let catalog ← type.methods.foldlM (addMethod key) catalog
  let catalog ← type.fields.foldlM (addField key) catalog
  let catalog ← type.properties.foldlM (addProperty key) catalog
  return { catalog with types := catalog.types.insert type.hash type }

/-- The hash of a definition put under its key, which must be free. -/
def addName (definition : TypeDefinition) : Except RegistrationError Catalog :=
  if catalog.names.contains definition.key then
    .error (.duplicateType definition.key)
  else
    .ok { catalog with names := catalog.names.insert definition.key definition.hash }

/-- The catalog of the system types and of the given ones.  All names are
known before the first member is registered. -/
def build (definitions : List TypeDefinition) : Except RegistrationError Catalog := do
  let all := SystemTypes.definitions ++ definitions
  let catalog ← all.foldlM addName {}
  all.foldlM register catalog

/-! ## Lookup -/

/-- A registered type, or one that was closed. -/
def get? (hash : TypeHash) : Option HostType :=
  match catalog.types[hash]? with
  | some type => some type
  | none => catalog.instances[hash]?

def contains (hash : TypeHash) : Bool := (catalog.get? hash).isSome

def byName? (key : String) : Option TypeHash := catalog.names[key]?

/-- The display name of a type; an unknown one is shown by its hash. -/
def displayName (hash : TypeHash) : String :=
  match catalog.get? hash with
  | some type => type.displayName
  | none => hash.text

def method? (hash : TypeHash) : Option MethodEntry :=
  match catalog.methods[hash]? with
  | some method => some method
  | none => catalog.closedMethods[hash]?

def field? (hash : TypeHash) : Option FieldEntry := catalog.fields[hash]?

def property? (hash : TypeHash) : Option PropertyEntry :=
  catalog.properties[hash]?

/-- The generic definition that a closed type comes from. -/
def peel? (hash : TypeHash) : Option TypeHash :=
  catalog.get? hash >>= HostType.definition

def isClosedGeneric (hash : TypeHash) : Bool := (catalog.peel? hash).isSome

def admitsNull (hash : TypeHash) : Bool :=
  match catalog.get? hash with
  | some type => type.admitsNull
  | none => false

/-- The value that a local variable or an array element has at first. -/
def defaultValue (hash : TypeHash) : Value :=
  if hash = .bool then .bool false
  else if hash = .int then .int 0
  else if hash = .int64 then .int64 0
  else if hash = .uint then .uint 0
  else if hash = .uint64 then .uint64 0
  else if hash = .float then .float 0
  else if hash = .double then .double 0
  else if hash = .void then .void
  else .null

def debugText : String :=
  "TypeCatalog \x7b types: " ++ toString catalog.types.size ++ ", instances: "
    ++ toString catalog.instances.size ++ ", .. \x7d"

end Catalog
end OpMachine
