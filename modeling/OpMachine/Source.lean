import Std.Data.HashMap
import OpMachine.Operation.Traversal

namespace OpMachine

/-!
Sources: the declarations that a front end offers for compilation.

Declarations are numbered in the order they are added, starting at one, and a
method is also found by the identity of its symbol.  When two methods share an
identity, the one added last is found.
-/

structure SyntaxId where
  number : Nat
deriving DecidableEq, Hashable, Inhabited, Repr

structure MethodDeclaration where
  symbol : MethodSymbol
  body : Operation

inductive Declaration where
  | method (declaration : MethodDeclaration)
  | expression (operation : Operation)
  /-- Anything else a source may declare, known by its kind only. -/
  | other (kind : String)

def Declaration.kindName : Declaration -> String
  | .method _ => "method declaration"
  | .expression _ => "expression"
  | .other kind => kind

/-- The declarations of a program, in order. -/
structure Source where
  declarations : Array Declaration := #[]
  /-- The declaration of each method, by the identity of its symbol. -/
  methods : Std.HashMap SymbolId MethodDeclaration := {}
  /-- The number of symbol identities handed out. -/
  symbolCount : Nat := 0

namespace Source

variable (source : Source)

def freshSymbol : SymbolId × Source :=
  (⟨source.symbolCount + 1⟩, { source with symbolCount := source.symbolCount + 1 })

def nextSyntax : SyntaxId := ⟨source.declarations.size + 1⟩

/-- One more declaration, which receives `nextSyntax`. -/
def add (declaration : Declaration) : Source :=
  let declarations := source.declarations.push declaration
  match declaration with
  | .method method =>
      { source with declarations, methods := source.methods.insert method.symbol.id method }
  | _ => { source with declarations }

def declaration? (id : SyntaxId) : Option Declaration :=
  if id.number = 0 then none else source.declarations[id.number - 1]?

def methodBody? (symbol : MethodSymbol) : Option MethodDeclaration :=
  source.methods[symbol.id]?

end Source
end OpMachine
