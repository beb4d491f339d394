import OpMachine.Compiler.Statement
import OpMachine.Heap
import OpMachine.Operation.Functions
import OpMachine.Source

namespace OpMachine

/-!
Compilation of declarations.

One declaration is compiled in a session of its own.  First the anonymous
functions in its body are compiled, each into a unit inside the unit of the
declaration, the inner ones first; then the body itself.  A call of another
declared method compiles that method in the same way, once for every call
site.  A method that is already under compilation cannot be reached again,
except by a call of itself, so the nesting is bounded by the number of declared
methods.
-/

/-- A function with the unit it was compiled in. -/
structure CompiledFunction where
  unit : CodeUnit
  method : CompiledMethod
  delegateType : TypeHash
  signature : Signature

def CompiledFunction.cell (function : CompiledFunction) : FunctionCell :=
  ⟨function.delegateType, function.signature, none, .compiled function.method⟩

namespace Make

/-- The delegate type of a symbol, with its signature. -/
def functionType (symbol : MethodSymbol) : Make (TypeHash × Signature) := do
  let _ ← resolveAll (symbol.parameters.map (·.type))
  if symbol.returnsValue then
    let _ ← resolve symbol.returnType
  match ← lookup (Catalog.functionType symbol) with
  | none => throw (.unresolvedType symbol.signatureText)
  | some delegateType =>
      match ← lookup (Catalog.delegateSignature delegateType) with
      | none => throw (.unresolvedType symbol.signatureText)
      | some signature => return (delegateType, signature)

/-- The body of a method compiled, from fresh slots and an empty pool. -/
def method (surroundings : Surroundings) (symbol : MethodSymbol) (hasReceiver : Bool)
    (operation : Operation) : Make CompiledMethod := fun workspace =>
  let start : Body := { slots := .ofMethod symbol hasReceiver, workspace }
  match Compile.bodyCode surroundings symbol.returnsValue operation start with
  | .error error body => .error error body.workspace
  | .ok _ body =>
      .ok
        { name := symbol.name
          parameterCount := body.slots.parameterCount
          hasReceiver
          localCount := body.slots.localCount
          returnsValue := symbol.returnsValue
          chunk := body.emitter.chunk
          pool := body.emitter.pool
          lambdas := body.lambdas
          callees := body.callees }
        body.workspace

def openUnit (session : Session) (name : String) : Make (Nat × Session) :=
  modifyGet fun workspace =>
    let (unit, session, numbering) := session.openUnit workspace.numbering name
    ((unit, session), { workspace with numbering })

variable (callee : MethodSymbol -> Make CompiledMethod)

/-- An anonymous function compiled into a unit of its own and registered. -/
def lambda (session : Session) (node : FunctionNode) : Make Session := do
  let (unit, session) ← openUnit session node.symbol.name
  let (delegateType, signature) ← functionType node.symbol
  let compiled ← method ⟨session, callee⟩ node.symbol true node.body
  let session ← ofExcept (session.addMethod unit compiled)
  let session ← ofExcept (session.addDelegate unit)
  let (code, session) ← ofExcept (session.sealUnit unit)
  let (lambda, session) :=
    session.makeLambda node.symbol.id code compiled delegateType signature
  return session.register lambda

/-- The anonymous functions that are not registered yet, compiled in order, and
how many they were. -/
def lambdas (callee : MethodSymbol -> Make CompiledMethod) :
    Session -> List FunctionNode -> Make (Session × Nat)
  | session, [] => return (session, 0)
  | session, node :: rest => do
      if (session.lambda? node.symbol.id).isSome then
        lambdas callee session rest
      else
        let session ← lambda callee session node
        let (session, count) ← lambdas callee session rest
        return (session, count + 1)

/-- A function in a session of its own, its anonymous functions first. -/
def topLevel (symbol : MethodSymbol) (operation : Operation) : Make CompiledFunction := do
  let (delegateType, signature) ← functionType symbol
  let session ← modifyGet fun workspace =>
    let (session, numbering) := Session.start workspace.numbering
    (session, { workspace with numbering })
  let (unit, session) ← openUnit session symbol.name
  let (session, _) ← lambdas callee session operation.functions
  let compiled ← method ⟨session, callee⟩ symbol false operation
  let session ← ofExcept (session.addMethod unit compiled)
  let (code, _) ← ofExcept (session.sealUnit unit)
  return ⟨code, compiled, delegateType, signature⟩

/-- The failure of a call cycle through more than one method. -/
def cycle {α : Type} (symbol : MethodSymbol) : Make α :=
  throw (.unsupportedShape ("recursive call cycle through '" ++ symbol.signatureText ++ "'"))

/-- A method compiled while others are, at most a number of levels deep. -/
def nested (source : Source) : Nat -> List SymbolId -> MethodSymbol -> Operation ->
    Make CompiledFunction
  | 0, _, symbol, _ => cycle symbol
  | levels + 1, active, symbol, operation =>
      if active.contains symbol.id then cycle symbol
      else
        let callee (method : MethodSymbol) : Make CompiledMethod := do
          match source.methodBody? method with
          | none => throw (.unresolvedType method.containingType.text)
          | some declaration =>
              if declaration.symbol.isStatic then
                let function ←
                  nested source levels (symbol.id :: active) declaration.symbol declaration.body
                return function.method
              else
                throw (.invalidSymbol "static method" declaration.symbol.signatureText)
        topLevel callee symbol operation

variable (source : Source)

/-- The deepest nesting of compilations: the root and every declared method. -/
def maximumNesting : Nat := source.methods.size + 2

/-- Only static methods are compiled. -/
def declaredMethod (declaration : MethodDeclaration) : Make CompiledFunction :=
  if declaration.symbol.isStatic then
    nested source (maximumNesting source) [] declaration.symbol declaration.body
  else
    throw (.invalidSymbol "static method" declaration.symbol.signatureText)

def expressionSymbol (operation : Operation) : MethodSymbol :=
  { id := ⟨0⟩, name := "<expression>", containingType := .void
    returnType := operation.type.getD .void }

def expression (operation : Operation) : Make CompiledFunction :=
  nested source (maximumNesting source) [] (expressionSymbol operation) operation

/-- What the declaration under a number is compiled to. -/
def declaration (id : SyntaxId) : Make CompiledFunction :=
  match source.declaration? id with
  | some (.method declaration) => declaredMethod source declaration
  | some (.expression operation) => expression source operation
  | some (.other kind) => throw (.invalidSymbol "method declaration or expression" kind)
  | none => throw (.invalidSymbol "method declaration or expression"
      ("unknown syntax node " ++ toString id.number))

end Make
end OpMachine
