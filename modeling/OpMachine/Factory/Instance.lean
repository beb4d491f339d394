import OpMachine.Factory.Basic

namespace OpMachine
namespace Request

/-!
Objects made straight from a creation expression.

No code is compiled: the arguments of the constructor must be constants, and
every simple assignment below the creation stores a constant, or what the
fallback supplies, in a member of the new object.  Numbers are converted to the
kind of the member.
-/

def constantArguments : List Operation -> Request (List Value)
  | [] => return []
  | argument :: rest => do
      match argument.constant >>= Value.ofLiteral? with
      | some value => return value :: (← constantArguments rest)
      | none => compilationError (.unsupportedShape
          ("non-constant constructor argument " ++ argument.shapeName))

/-- A host function called until it ends.  What it calls back is answered by
the invoker. -/
def callHost (function : HostFunction) (call : HostCall) : Request Value := do
  let factory ← get
  let step := function.action.perform factory.natives call factory.heap
  let (result, heap) := step.complete (factory.invoker factory.host)
  set { factory with heap }
  match result with
  | .ok value => return value
  | .error error => throw (.runtime error)

variable (target : TypeHash)

/-- A new object of a type, made by the constructor that takes the parameter
types. -/
def construct (parameters : List Descriptor) (arguments : List Value) : Request Value := do
  let requested ← make (Make.resolveAll parameters)
  let catalog ← catalog
  match Overload.select catalog requested (catalog.constructors target) with
  | none => compilationError (.unresolvedOverload
      (catalog.displayName target ++ "." ++ MethodSymbol.constructorName)
      (requested.map catalog.displayName))
  | some candidate =>
      match candidate.method.body with
      | .host function => callHost function { arguments, constructedType := some target }
      | .delegateInvoke =>
          compilationError (.unsupportedShape "constructor without a native body")

def memberType (type : TypeRef) (qualified : String) : Request TypeHash := do
  match ← make (Make.lookup (Catalog.materialize type)) with
  | some type => return type
  | none => compilationError (.unresolvedType qualified)

def setterOf (type : TypeHash) (store : MemberStore) : Request Setter := do
  return { memberType := type, admitsNull := (← catalog).admitsNull type
           coerced := NumericKind.ofType? type, store }

/-- A field comes before a property of the same name. -/
def newSetter (owner : TypeHash) (member : String) : Request Setter := do
  let catalog ← catalog
  let qualified := catalog.displayName owner ++ "." ++ member
  match catalog.findField? owner member with
  | some field => setterOf (← memberType field.type qualified) (.field field.access)
  | none =>
      match catalog.findProperty? owner member with
      | none => compilationError (.invalidSymbol
          ("field or property '" ++ qualified ++ "'") "no such member")
      | some found =>
          let property := catalog.overridingProperty owner found
          if property.isStatic then
            compilationError (.unsupportedShape
              ("static property '" ++ qualified ++ "' in object initializer"))
          else
            match property.setter with
            | none => compilationError (.unsupportedShape
                ("assignment to read-only property '" ++ qualified ++ "'"))
            | some setter =>
                setterOf (← memberType property.type qualified) (.property setter)

/-- Setters are looked up once and kept. -/
def setter (owner : TypeHash) (member : String) : Request Setter := do
  match (← get).setters[(owner, member)]? with
  | some setter => return setter
  | none =>
      let setter ← newSetter owner member
      modify fun factory =>
        { factory with setters := factory.setters.insert (owner, member) setter }
      return setter

def coerce (setter : Setter) (value : Value) : Request Value :=
  match setter.coerced, NumericKind.ofValue? value with
  | some kind, some found =>
      if found = kind then return value
      else
        match Arithmetic.convert kind value with
        | .ok value => return value
        | .error error => throw (.runtime error)
  | _, _ => return value

def apply (setter : Setter) (object value : Value) : Request Unit := do
  let value ← coerce setter value
  match setter.store with
  | .property setter =>
      let _ ← callHost setter.function { receiver := some object, arguments := [value] }
  | .field access =>
      match object with
      | .object ref =>
          match access.set (← get).heap ref value with
          | .ok heap => modify fun factory => { factory with heap }
          | .error error => throw (.runtime error)
      | other => throw (.runtime (.typeMismatch "object" other.kindName))

def assignedMember : Operation -> Request String
  | .member _ _ _ symbol => return symbol.name
  | other => compilationError (.unsupportedShape
      ("assignment to " ++ other.shapeName ++ " in object initializer"))

def askFallback (assignment : UnknownAssignment) : Request (Option Value) := do
  match (← get).fallback with
  | none => return none
  | some hook =>
      modify fun factory => { factory with asked := factory.asked.push assignment }
      return hook assignment

/-- The value that an assignment stores; nothing if the member is left alone. -/
def assignedValue (typeName member : String) (setter : Setter)
    (value : Operation) : Request (Option Value) := do
  let qualified := typeName ++ "." ++ member
  match value.constant with
  | some literal =>
      match Value.ofLiteral? literal with
      | some value => return some value
      | none => compilationError (.unsupportedShape
          (literal.kindName ++ " constant assigned to '" ++ qualified ++ "'"))
  | none =>
      match ← askFallback ⟨target, typeName, member, setter.memberType, value⟩ with
      | some value => return some value
      | none =>
          if setter.admitsNull then return none
          else compilationError (.missingValue qualified)

/-- The simple assignments among some operations, stored in an object. -/
def assignments (target : TypeHash) (typeName : String) (object : Value) :
    List Operation -> Request Unit
  | [] => return ()
  | .assignment _ place value :: rest => do
      let member ← assignedMember place
      let setter ← setter target member
      match ← assignedValue target typeName member setter value with
      | some value => apply setter object value
      | none => pure ()
      assignments target typeName object rest
  | _ :: rest => assignments target typeName object rest

/-- A new object with its constant assignments stored. -/
def materialize (creation : Operation) : Request Value := do
  match creation with
  | .objectCreation _ constructor arguments _ =>
      let arguments ← constantArguments arguments
      let object ← construct target (constructor.parameters.map (·.type)) arguments
      let typeName := (← catalog).displayName target
      assignments target typeName object creation.descendants
      return object
  | other => compilationError (.invalidSymbol "object creation" other.shapeName)

/-- The object that the creation expression under a number describes. -/
def createInstance (source : Source) (id : SyntaxId) : Request Value := do
  match source.declaration? id with
  | some (.expression creation) =>
      match creation.type with
      | none => compilationError (.invalidSymbol "typed object creation" creation.shapeName)
      | some type =>
          let target ← make (Make.resolve type)
          materialize target creation
  | some other => compilationError (.invalidSymbol "object creation expression" other.kindName)
  | none => compilationError (.invalidSymbol "object creation expression"
      ("unknown syntax node " ++ toString id.number))

def createPayload (source : Source) (id : SyntaxId) (kind : PayloadKind) : Request Payload := do
  match ← createInstance source id with
  | .object ref =>
      match (← get).heap.payload kind ref with
      | .ok payload => return payload
      | .error error => throw (.runtime error)
  | other => throw (.runtime (.typeMismatch "host object" other.kindName))

end Request
end OpMachine
