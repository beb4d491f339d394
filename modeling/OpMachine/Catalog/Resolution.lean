import OpMachine.Catalog.Basic

namespace OpMachine

/-!
Resolution of descriptors.

Resolving may add closed generic types to the catalog, also when it fails in
the end: the arguments are resolved from the left, and those before the first
failure stay.  What is added never replaces anything.
-/

/-- A lookup that may have no answer and may extend the catalog either way. -/
abbrev Lookup := OptionT (StateM Catalog)

namespace Catalog

variable (catalog : Catalog)

def instanceText (definition : HostType) (arguments : List TypeHash) : String :=
  let names := arguments.map catalog.displayName
  if definition.traits.isArray then
    names.headD "" ++ Descriptor.brackets definition.arrayRank
  else
    definition.name ++ "<" ++ ", ".intercalate names ++ ">"

def instanceType (definition : HostType) (hash : TypeHash) (arguments : List TypeHash) : HostType :=
  { hash
    name := definition.name
    displayName := catalog.instanceText definition arguments
    traits := { definition.traits with isGenericDefinition := false }
    base := definition.base
    genericParameters := []
    definition := some definition.hash
    typeArguments := arguments
    arrayRank := definition.arrayRank
    constructors := []
    methods := []
    fields := []
    properties := []
    invoke := none }

/-- A registered generic definition closed over as many arguments as it has
parameters. -/
def closeGeneric (definition : TypeHash) (arguments : List TypeHash) : Lookup TypeHash := do
  let catalog ← get
  match catalog.types[definition]? with
  | none => failure
  | some type =>
      if type.traits.isGenericDefinition
          && type.genericParameters.length == arguments.length then
        let hash := TypeHash.ofInstance definition arguments
        unless catalog.instances.contains hash do
          let closed := catalog.instanceType type hash arguments
          set { catalog with instances := catalog.instances.insert hash closed }
        return hash
      else
        failure

def closeArray (element : TypeHash) (rank : Nat) : Lookup TypeHash := do
  match (← get).byName? (TypeHash.arrayKey rank) with
  | some definition => closeGeneric definition [element]
  | none => failure

mutual

def resolve : Descriptor -> Lookup TypeHash
  | .void => return .void
  | .parameter _ => failure
  | .named name arguments => do
      match (← get).byName? (genericKey name arguments.length) with
      | none => failure
      | some type =>
          if arguments.isEmpty then return type
          else closeGeneric type (← resolveAll arguments)
  | .array element rank => do closeArray (← resolve element) rank.toNat

/-- The types of a list of descriptors, up to the first that denotes none. -/
def resolveAll : List Descriptor -> Lookup (List TypeHash)
  | [] => return []
  | head :: tail => do
      let type ← resolve head
      let types ← resolveAll tail
      return type :: types

end

mutual

/-- The type that a closed reference denotes, made if it does not exist yet. -/
def materialize : TypeRef -> Lookup TypeHash
  | .void => return .void
  | .concrete type => return type
  | .typeParameter _ => failure
  | .methodParameter _ => failure
  | .generic definition arguments => do
      closeGeneric definition (← materializeAll arguments)

/-- The types of a list of references, up to the first that is open. -/
def materializeAll : List TypeRef -> Lookup (List TypeHash)
  | [] => return []
  | head :: tail => do
      let type ← materialize head
      let types ← materializeAll tail
      return type :: types

end

def functionType (method : MethodSymbol) : Lookup TypeHash := do
  let parameters ← resolveAll (method.parameters.map (·.type))
  let arity := parameters.length
  if method.returnsValue then
    let result ← resolve method.returnType
    match DelegateFamily.func? arity with
    | some definition => closeGeneric definition (parameters ++ [result])
    | none => failure
  else
    match DelegateFamily.proc? arity with
    | some definition => if arity = 0 then return definition else closeGeneric definition parameters
    | none => failure

/-- The type that declares the members of a type, and the type arguments to
be substituted into them. -/
def declaring? (hash : TypeHash) : Option (HostType × List TypeHash) :=
  match catalog.get? hash with
  | none => none
  | some type =>
      match type.definition with
      | none => some (type, [])
      | some definition =>
          (catalog.get? definition).map fun declaring => (declaring, type.typeArguments)

def delegateSignature (hash : TypeHash) : Lookup Signature := do
  match (← get).declaring? hash with
  | none => failure
  | some (type, arguments) =>
      match type.invoke with
      | none => failure
      | some invoke =>
          let parameters ← materializeAll (invoke.parameters.map (·.substitute arguments []))
          let result := invoke.returnType.substitute arguments []
          if result.isVoid then
            return ⟨parameters, none⟩
          else
            return ⟨parameters, some (← materialize result)⟩

def lookup {α : Type} (catalog : Catalog) (action : Lookup α) : Option α × Catalog :=
  action.run.run catalog

end Catalog
end OpMachine
