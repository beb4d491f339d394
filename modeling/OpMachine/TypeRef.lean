import OpMachine.TypeHash

namespace OpMachine

/-!
Type references: types as they are written in the signature of a member.

Unlike a hash, a reference can mention the generic parameters of the declaring
type and of the method, by their position.  A reference without parameters is
closed and denotes the type with a hash.
-/

/-- A type as a member mentions it, maybe open. -/
inductive TypeRef where
  | void
  | concrete (type : TypeHash)
  | typeParameter (index : Nat)
  | methodParameter (index : Nat)
  | generic (definition : TypeHash) (arguments : List TypeRef)
deriving Inhabited

/-- The key under which a type is registered: its name, and its number of
generic parameters if it has any. -/
def genericKey (name : String) (arity : Nat) : String :=
  if arity = 0 then name else name ++ "`" ++ toString arity

namespace TypeRef

/-- The type with a hash; the hash of void stands for no type. -/
def of (type : TypeHash) : TypeRef :=
  if type = .void then .void else .concrete type

def named (name : String) : TypeRef :=
  if name = "void" then .void else .concrete (.ofName name)

def applied (name : String) (arguments : List TypeRef) : TypeRef :=
  .generic (.ofName (genericKey name arguments.length)) arguments

def vector (element : TypeRef) : TypeRef :=
  .generic (.arrayDefinition 1) [element]

def int : TypeRef := .concrete .int
def string : TypeRef := .concrete .string

def isVoid : TypeRef -> Bool
  | .void => true
  | _ => false

def isBare : TypeRef -> Bool
  | .typeParameter _ => true
  | .methodParameter _ => true
  | _ => false

mutual

def isOpen : TypeRef -> Bool
  | .void => false
  | .concrete _ => false
  | .typeParameter _ => true
  | .methodParameter _ => true
  | .generic _ arguments => anyOpen arguments

def anyOpen : List TypeRef -> Bool
  | [] => false
  | head :: tail => head.isOpen || anyOpen tail

end

mutual

def closedHash : TypeRef -> Option TypeHash
  | .void => some .void
  | .concrete type => some type
  | .typeParameter _ => none
  | .methodParameter _ => none
  | .generic definition arguments =>
      (closedHashes arguments).map fun hashes => .ofInstance definition hashes

def closedHashes : List TypeRef -> Option (List TypeHash)
  | [] => some []
  | head :: tail =>
      match head.closedHash, closedHashes tail with
      | some hash, some hashes => some (hash :: hashes)
      | _, _ => none

end

mutual

/-- The identity of a reference in the hash of a member.  Parameters
contribute by their position. -/
def signatureHash : TypeRef -> TypeHash
  | .void => .void
  | .concrete type => type
  | .typeParameter index => .ofName ("!" ++ toString index)
  | .methodParameter index => .ofName ("!!" ++ toString index)
  | .generic definition arguments => .ofInstance definition (signatureHashes arguments)

def signatureHashes : List TypeRef -> List TypeHash
  | [] => []
  | head :: tail => head.signatureHash :: signatureHashes tail

end

mutual

/-- A reference with type arguments and method arguments in the place of its
parameters.  A parameter without an argument stays. -/
def substitute (typeArguments methodArguments : List TypeHash) : TypeRef -> TypeRef
  | .void => .void
  | .concrete type => .concrete type
  | .typeParameter index =>
      match typeArguments[index]? with
      | some type => .of type
      | none => .typeParameter index
  | .methodParameter index =>
      match methodArguments[index]? with
      | some type => .of type
      | none => .methodParameter index
  | .generic definition arguments =>
      .generic definition (substituteAll typeArguments methodArguments arguments)

def substituteAll (typeArguments methodArguments : List TypeHash) :
    List TypeRef -> List TypeRef
  | [] => []
  | head :: tail =>
      head.substitute typeArguments methodArguments
        :: substituteAll typeArguments methodArguments tail

end

theorem signatureHashes_eq_map (references : List TypeRef) :
    signatureHashes references = references.map signatureHash := by
  induction references with
  | nil => rfl
  | cons head tail ih => simp [signatureHashes, ih]

theorem substituteAll_eq_map (typeArguments methodArguments : List TypeHash)
    (references : List TypeRef) :
    substituteAll typeArguments methodArguments references
      = references.map (substitute typeArguments methodArguments) := by
  induction references with
  | nil => rfl
  | cons head tail ih => simp [substituteAll, ih]

theorem anyOpen_eq_any (references : List TypeRef) :
    anyOpen references = references.any isOpen := by
  induction references with
  | nil => rfl
  | cons head tail ih => simp [anyOpen, ih]

end TypeRef
end OpMachine
