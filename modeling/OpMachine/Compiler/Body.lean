import OpMachine.Emitter
import OpMachine.Overload
import OpMachine.Session
import OpMachine.SlotTable
import OpMachine.Operation.Traversal

namespace OpMachine

/-!
The state of a body under compilation.

Compiling a body emits code, hands out slots and collects the anonymous
functions and methods the code refers to.  Besides the body there is a
workspace, which all compilations share: the catalog, which grows as types are
resolved, and the numbering of sessions and units.  The workspace outlives a
failed compilation.
-/

/-- What all compilations share. -/
structure Workspace where
  catalog : Catalog
  numbering : Numbering := {}

/-- Compilation of whole functions, apart from any body. -/
abbrev Make := EStateM CompilationError Workspace

namespace Make

def lookup {α : Type} (action : Lookup α) : Make (Option α) :=
  modifyGet fun workspace =>
    let (answer, catalog) := workspace.catalog.lookup action
    (answer, { workspace with catalog })

def resolve (descriptor : Descriptor) : Make TypeHash := do
  match ← lookup (Catalog.resolve descriptor) with
  | some type => return type
  | none => throw (.unresolvedType descriptor.text)

def resolveAll : List Descriptor -> Make (List TypeHash)
  | [] => return []
  | head :: tail => do
      let type ← resolve head
      let types ← resolveAll tail
      return type :: types

def catalog : Make Catalog := return (← get).catalog

end Make

/-- A body under compilation. -/
structure Body where
  emitter : Emitter := {}
  slots : SlotTable
  lambdas : List CompiledLambda := []
  callees : List CompiledMethod := []
  /-- The object initializers whose object is on the stack. -/
  implicitReceivers : Nat := 0
  workspace : Workspace

/-- Compilation of a piece of a body. -/
abbrev Compile := EStateM CompilationError Body

/-- What the compilation of a body relies on. -/
structure Surroundings where
  /-- The session of the body, with the anonymous functions made so far. -/
  session : Session
  /-- The compilation of a method that the body calls. -/
  callee : MethodSymbol -> Make CompiledMethod

namespace Compile

variable {α : Type}

def emit (action : Emit α) : Compile α :=
  fun ⟨emitter, slots, lambdas, callees, implicitReceivers, workspace⟩ =>
    match action emitter with
    | .ok value emitter =>
        .ok value ⟨emitter, slots, lambdas, callees, implicitReceivers, workspace⟩
    | .error error emitter =>
        .error error ⟨emitter, slots, lambdas, callees, implicitReceivers, workspace⟩

def make (action : Make α) : Compile α :=
  fun ⟨emitter, slots, lambdas, callees, implicitReceivers, workspace⟩ =>
    match action workspace with
    | .ok value workspace =>
        .ok value ⟨emitter, slots, lambdas, callees, implicitReceivers, workspace⟩
    | .error error workspace =>
        .error error ⟨emitter, slots, lambdas, callees, implicitReceivers, workspace⟩

/-- A slot handed out, or a failure that leaves the slots alone. -/
def withSlots (action : SlotTable -> Except CompilationError (α × SlotTable)) : Compile α :=
  fun body =>
    match action body.slots with
    | .ok (value, slots) => .ok value { body with slots }
    | .error error => .error error body

def unsupported (shape : String) : Compile α := throw (.unsupportedShape shape)

def invalid (expected found : String) : Compile α :=
  throw (.invalidSymbol expected found)

def catalog : Compile Catalog := make Make.catalog

def resolve (descriptor : Descriptor) : Compile TypeHash := make (Make.resolve descriptor)

def resolveAll (descriptors : List Descriptor) : Compile (List TypeHash) :=
  make (Make.resolveAll descriptors)

def staticType (operation : Operation) : Compile TypeHash :=
  match operation.type with
  | some type => resolve type
  | none => invalid "typed expression" operation.shapeName

def parameterSlot (symbol : ParameterSymbol) : Compile UInt8 :=
  withSlots fun slots => return (← slots.parameterSlot symbol, slots)

def localSlot (symbol : LocalSymbol) : Compile UInt16 :=
  withSlots fun slots => return (← slots.localSlot symbol, slots)

def declareLocal (symbol : LocalSymbol) : Compile UInt16 :=
  withSlots fun slots => slots.declare symbol

def freshSlot : Compile UInt16 := withSlots SlotTable.fresh

def argumentCount (count : Nat) : Compile UInt8 :=
  if count < 256 then return count.toUInt8
  else unsupported "call with more than 255 arguments"

/-- The position of an anonymous function in the table of the body. -/
def lambdaIndex (session : Session) (symbol : SymbolId) : Compile UInt8 := do
  let body ← get
  match body.lambdas.findIdx? (·.symbol = symbol) with
  | some index => return index.toUInt8
  | none =>
      match session.lambda? symbol with
      | none => invalid "materialized anonymous function" ("symbol " ++ symbol.text)
      | some lambda =>
          let index := body.lambdas.length
          if index < 256 then
            set { body with lambdas := body.lambdas ++ [lambda] }
            return index.toUInt8
          else unsupported "more than 255 lambdas"

/-- The position of a called method, which is new at every call site. -/
def addCallee (method : CompiledMethod) : Compile UInt8 := do
  let body ← get
  let index := body.callees.length
  if index < 256 then
    set { body with callees := body.callees ++ [method] }
    return index.toUInt8
  else unsupported "more than 255 source calls"

def unresolvedOverload (owner : TypeHash) (name : String)
    (requested : List TypeHash) : Compile α := do
  let catalog ← catalog
  throw (.unresolvedOverload (catalog.displayName owner ++ "." ++ name)
    (requested.map catalog.displayName))

/-- The best candidate, or the failure that names what was asked for. -/
def selectOverload (owner : TypeHash) (name : String) (requested : List TypeHash)
    (candidates : List Candidate) : Compile MethodEntry := do
  match Overload.select (← catalog) requested candidates with
  | some candidate => return candidate.method
  | none => unresolvedOverload owner name requested

def closeMethod (method : MethodEntry) (arguments : List TypeHash) (owner : TypeHash)
    (requested : List TypeHash) : Compile MethodEntry := do
  match ← make (Make.lookup (Catalog.closeMethod method arguments)) with
  | some closed => return closed
  | none => unresolvedOverload owner method.name requested

end Compile
end OpMachine
