import OpMachine.Catalog.Resolution

namespace OpMachine

/-!
Members of types.

A member is looked for in the type itself and then in its bases.  Types are
known by name before their members are registered, so nothing keeps a type
from being its own base in the end; the walk therefore visits no more types
than the catalog holds.
-/

/-- A method with its parameters as they are seen from a receiver type. -/
structure Candidate where
  method : MethodEntry
  parameters : List TypeRef

namespace Catalog

/-- The declaring types from a type upwards, at most as many as allowed. -/
def ancestry (catalog : Catalog) : Nat -> TypeHash -> List (HostType × List TypeHash)
  | 0, _ => []
  | allowed + 1, hash =>
      match catalog.declaring? hash with
      | none => []
      | some (type, arguments) =>
          (type, arguments) :: match type.base with
            | some base => catalog.ancestry allowed base
            | none => []

variable (catalog : Catalog)

/-- The declaring types of a type, the most derived first, with the type
arguments of each. -/
def hierarchy (hash : TypeHash) : List (HostType × List TypeHash) :=
  catalog.ancestry (catalog.types.size + 1) hash

def candidate (arguments : List TypeHash) (method : MethodEntry) : Candidate :=
  ⟨method, method.parameters.map (·.substitute arguments [])⟩

/-- The methods of a name, those of the most derived type first. -/
def methodsNamed (owner : TypeHash) (name : String) : List Candidate :=
  (catalog.hierarchy owner).flatMap fun (type, arguments) =>
    (type.methods.filter (·.name = name)).map (candidate arguments)

def constructors (owner : TypeHash) : List Candidate :=
  match catalog.declaring? owner with
  | some (type, arguments) => type.constructors.map (candidate arguments)
  | none => []

def findField? (owner : TypeHash) (name : String) : Option FieldEntry :=
  (catalog.hierarchy owner).findSome? fun (type, _) =>
    type.fields.find? (·.name = name)

def findProperty? (owner : TypeHash) (name : String) : Option PropertyEntry :=
  (catalog.hierarchy owner).findSome? fun (type, _) =>
    type.properties.find? (·.name = name)

/-- The most derived method with the name and the signature of a given one, as
seen from a type at run time; the method itself if there is none. -/
def overriding (runtimeType : TypeHash) (method : MethodEntry) : MethodEntry :=
  ((catalog.hierarchy runtimeType).findSome? fun (type, _) =>
    type.methods.find? fun other =>
      other.name = method.name && other.signature == method.signature).getD method

def overridingProperty (runtimeType : TypeHash) (property : PropertyEntry) : PropertyEntry :=
  (catalog.findProperty? runtimeType property.name).getD property

def closedMethod (method : MethodEntry) (hash : TypeHash) (arguments : List TypeHash) :
    MethodEntry :=
  { method with
    hash
    parameters := method.parameters.map (·.substitute [] arguments)
    returnType := method.returnType.substitute [] arguments
    genericParameters := []
    definition := some method.hash
    typeArguments := arguments }

/-- A method closed over type arguments, made on first use.  Without type
arguments every method is taken as it is. -/
def closeMethod (method : MethodEntry) (arguments : List TypeHash) : Lookup MethodEntry := do
  if arguments.isEmpty then
    return method
  else if method.genericParameters.length ≠ arguments.length then
    failure
  else
    let catalog ← get
    let hash := TypeHash.ofClosedMethod method.hash arguments
    match catalog.closedMethods[hash]? with
    | some closed => return closed
    | none =>
        let closed := closedMethod method hash arguments
        set { catalog with closedMethods := catalog.closedMethods.insert hash closed }
        return closed

end Catalog
end OpMachine
