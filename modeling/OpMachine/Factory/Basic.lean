import OpMachine.Compiler.Function
import OpMachine.Machine.Run

namespace OpMachine

/-!
Factories: everything a host needs to turn declarations into functions.

A factory holds the catalog, the limit on nested calls and the heap of all
functions it hands out.  Each request gives an answer and the factory after it;
a failed request keeps what was resolved, numbered or stored before it failed.
-/

/-- An assignment whose value is not known without running code. -/
structure UnknownAssignment where
  owner : TypeHash
  typeName : String
  member : String
  memberType : TypeHash
  value : Operation

inductive MemberStore where
  | field (access : SlotAccess)
  | property (setter : MemberSetter)

/-- A member to write, and the number kind to convert to. -/
structure Setter where
  memberType : TypeHash
  admitsNull : Bool
  coerced : Option NumericKind
  store : MemberStore

/-- Answers the calls of host functions that work outside of a run. -/
abbrev Invoker := Host -> FunctionRef -> List Value -> Heap -> Except RuntimeError Value × Heap

/-- The entry point of a host: what it shares between requests. -/
structure Factory where
  workspace : Workspace
  maximumDepth : Nat := 256
  natives : Natives := .silent
  invoker : Invoker := fun _ _ _ heap => (.ok .void, heap)
  /-- Supplies values for assignments that are not constant. -/
  fallback : Option (UnknownAssignment -> Option Value) := none
  setters : Std.HashMap (TypeHash × String) Setter := {}
  asked : Array UnknownAssignment := #[]
  heap : Heap := {}

abbrev Request := EStateM RequestError Factory

namespace Factory

def build (definitions : List TypeDefinition) : Except RequestError Factory :=
  match Catalog.build definitions with
  | .ok catalog => .ok { workspace := { catalog } }
  | .error error => .error (.registration error)

variable (factory : Factory)

def catalog : Catalog := factory.workspace.catalog

def host : Host :=
  { catalog := factory.catalog, maximumDepth := factory.maximumDepth
    natives := factory.natives }

def make {α : Type} (factory : Factory) (action : Make α) :
    Except CompilationError α × Factory :=
  match action factory.workspace with
  | .ok value workspace => (.ok value, { factory with workspace })
  | .error error workspace => (.error error, { factory with workspace })

def compile (source : Source) (id : SyntaxId) :
    Except CompilationError CompiledFunction × Factory :=
  factory.make (Make.declaration source id)

def addFunction (function : CompiledFunction) : FunctionRef × Factory :=
  let (ref, heap) := factory.heap.addFunction function.cell
  (ref, { factory with heap })

def invoke (steps : Nat) (function : FunctionRef)
    (arguments : List Value) : Option (Except RuntimeError Value × Factory) :=
  (Machine.run factory.host steps (.calling function arguments factory.heap)).map
    fun ending => (ending.result, { factory with heap := ending.heap })

def debugText : String :=
  "DynamicMethodFactory \x7b catalog: " ++ factory.catalog.debugText
    ++ ", max_call_depth: " ++ toString factory.maximumDepth
    ++ ", instances: InstanceMaterializer \x7b cached_setters: "
    ++ toString factory.setters.size
    ++ ", fallback: " ++ toString factory.fallback.isSome ++ ", .. \x7d \x7d"

end Factory

namespace Request

def make {α : Type} (action : Make α) : Request α := fun factory =>
  match factory.make action with
  | (.ok value, factory) => .ok value factory
  | (.error error, factory) => .error (.compilation error) factory

def compilationError {α : Type} (error : CompilationError) : Request α :=
  throw (.compilation error)

def catalog : Request Catalog := return (← get).catalog

/-- A declaration compiled and made a function on the heap. -/
def create (source : Source) (id : SyntaxId) : Request FunctionRef := do
  let function ← make (Make.declaration source id)
  modifyGet (·.addFunction function)

end Request
end OpMachine
