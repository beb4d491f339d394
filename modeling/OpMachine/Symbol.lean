import OpMachine.Descriptor

namespace OpMachine

/-!
Symbols: what a front end knows about the methods, parameters, members and
locals that an operation tree mentions.

A parameter remembers which method declares it.  That owner is what tells a
parameter of the body at hand from one that an enclosing method declares.
-/

/-- The identity of a declared method, anonymous function or local. -/
structure SymbolId where
  number : Nat
deriving DecidableEq, Hashable, Inhabited, Repr

def SymbolId.text (id : SymbolId) : String := "#" ++ toString id.number

inductive MethodKind where
  | ordinary
  | constructor
  | anonymousFunction
deriving DecidableEq, Repr

structure ParameterSymbol where
  name : String
  ordinal : Nat
  type : Descriptor
  owner : SymbolId
deriving Inhabited, Repr

/-- A method as a tree refers to it. -/
structure MethodSymbol where
  id : SymbolId
  name : String
  kind : MethodKind := .ordinary
  containingType : Descriptor
  parameters : List ParameterSymbol := []
  returnType : Descriptor := .void
  isStatic : Bool := true
  typeArguments : List Descriptor := []
deriving Repr

namespace MethodSymbol

def constructorName : String := ".ctor"

/-- An anonymous function written inside a type, named by its identity. -/
def lambda (id : SymbolId) (containingType : Descriptor) : MethodSymbol :=
  { id, name := "<lambda>" ++ toString id.number, kind := .anonymousFunction, containingType }

def constructor (id : SymbolId) (containingType : Descriptor) : MethodSymbol :=
  { id, name := constructorName, kind := .constructor, containingType
    returnType := containingType, isStatic := false }

variable (symbol : MethodSymbol)

def addParameter (name : String) (type : Descriptor) : MethodSymbol :=
  { symbol with
    parameters := symbol.parameters ++ [⟨name, symbol.parameters.length, type, symbol.id⟩] }

def returnsValue : Bool := !symbol.returnType.isVoid

/-- The signature as messages show it: type, name and parameter types. -/
def signatureText : String :=
  symbol.containingType.text ++ "." ++ symbol.name ++ "("
    ++ ", ".intercalate (symbol.parameters.map (·.type.text)) ++ ")"

end MethodSymbol

structure MemberSymbol where
  name : String
  containingType : Descriptor
  type : Descriptor
  isStatic : Bool := false
deriving Inhabited, Repr

structure LocalSymbol where
  id : SymbolId
  name : String
  type : Descriptor
deriving Inhabited, Repr

end OpMachine
