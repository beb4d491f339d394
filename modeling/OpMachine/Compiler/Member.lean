import OpMachine.Compiler.Body

namespace OpMachine

/-!
Fields and properties in code.

A member is looked for as a field first and as a property otherwise.  Access
to a property goes through the type at run time when the property is virtual
or when its declaring type can be derived from.
-/

/-- A field or a property, as code gets at it. -/
inductive MemberAccess where
  | field (hash : TypeHash)
  | property (hash : TypeHash) (isVirtual isReadable isWritable : Bool)
  | staticProperty (hash : TypeHash) (isReadable isWritable : Bool)
deriving DecidableEq

namespace MemberAccess

def hash : MemberAccess -> TypeHash
  | .field hash => hash
  | .property hash _ _ _ => hash
  | .staticProperty hash _ _ => hash

def isStatic : MemberAccess -> Bool
  | .staticProperty _ _ _ => true
  | _ => false

def isReadable : MemberAccess -> Bool
  | .field _ => true
  | .property _ _ isReadable _ => isReadable
  | .staticProperty _ isReadable _ => isReadable

def isWritable : MemberAccess -> Bool
  | .field _ => true
  | .property _ _ _ isWritable => isWritable
  | .staticProperty _ _ isWritable => isWritable

def loadOpcode : MemberAccess -> Opcode
  | .field _ => .getField
  | .property _ true _ _ => .getPropertyVirtual
  | .property _ false _ _ => .getProperty
  | .staticProperty _ _ _ => .getStaticProperty

def storeOpcode : MemberAccess -> Opcode
  | .field _ => .setField
  | .property _ true _ _ => .setPropertyVirtual
  | .property _ false _ _ => .setProperty
  | .staticProperty _ _ _ => .setStaticProperty

def ofProperty (catalog : Catalog) (property : PropertyEntry) : MemberAccess :=
  let isReadable := property.getter.isSome
  let isWritable := property.setter.isSome
  if property.isStatic then .staticProperty property.hash isReadable isWritable
  else
    let dispatched := match catalog.get? property.owner with
      | some owner => owner.dispatchesVirtually
      | none => false
    .property property.hash (property.isVirtual || dispatched) isReadable isWritable

end MemberAccess

namespace Compile

variable (symbol : MemberSymbol)

def memberAccess : Compile MemberAccess := do
  let owner ← resolve symbol.containingType
  let catalog ← catalog
  match catalog.findField? owner symbol.name with
  | some field =>
      if symbol.isStatic then unsupported ("static field '" ++ symbol.name ++ "'")
      else return .field field.hash
  | none =>
      match catalog.findProperty? owner symbol.name with
      | some property => return .ofProperty catalog property
      | none => unresolvedOverload owner symbol.name []

def readableMember : Compile MemberAccess := do
  let access ← memberAccess symbol
  if access.isReadable then return access
  else unsupported ("read of write-only property '" ++ symbol.name ++ "'")

def writableMember : Compile MemberAccess := do
  let access ← memberAccess symbol
  if access.isWritable then return access
  else unsupported ("assignment to read-only property '" ++ symbol.name ++ "'")

end Compile
end OpMachine
