import Std.Data.HashMap
import OpMachine.CodeUnit
import OpMachine.Error

namespace OpMachine

/-!
Compilation sessions.

A session owns what one top-level compilation makes before it is sealed: units
with a link to the unit they were opened in, a cursor on the unit being filled
and the anonymous functions compiled so far.  Sessions and units are numbered
from one by a numbering that all sessions share.
-/

/-- How many sessions and units there have been. -/
structure Numbering where
  sessions : Nat := 0
  units : Nat := 0
deriving DecidableEq, Inhabited

/-- A unit of a session, open until it is sealed. -/
structure UnitDraft where
  id : Nat
  name : String
  parent : Option Nat
  methods : List CompiledMethod := []
  hasDelegate : Bool := false
  isSealed : Bool := false
deriving Inhabited

/-- The units of one compilation, and its anonymous functions. -/
structure Session where
  number : Nat
  /-- The units in the order they were opened. -/
  units : Array UnitDraft := #[]
  current : Option Nat := none
  lambdas : Std.HashMap SymbolId CompiledLambda := {}
  /-- How many anonymous functions have a cell of their own. -/
  looseCells : Nat := 0

namespace Session

def start (numbering : Numbering) : Session × Numbering :=
  ({ number := numbering.sessions + 1 },
    { numbering with sessions := numbering.sessions + 1 })

variable (session : Session)

/-- A unit opened inside the current one.  It becomes the current one. -/
def openUnit (numbering : Numbering) (name : String) : Nat × Session × Numbering :=
  let index := session.units.size
  let draft : UnitDraft :=
    { id := numbering.units + 1
      name := "DynEmit.S" ++ toString session.number ++ ".U" ++ toString index ++ "." ++ name
      parent := session.current }
  (index, { session with units := session.units.push draft, current := some index },
    { numbering with units := numbering.units + 1 })

variable (unit : Nat)

def parent? : Option Nat :=
  session.units[unit]? >>= UnitDraft.parent

def unitName? : Option String :=
  session.units[unit]?.map (·.name)

def draft : Except CompilationError UnitDraft :=
  match session.units[unit]? with
  | none => .error (.invalidSymbol "open code unit" ("unknown unit " ++ toString unit))
  | some draft =>
      if draft.isSealed then
        .error (.invalidSymbol "open code unit" ("sealed unit " ++ draft.name))
      else .ok draft

def setDraft (draft : UnitDraft) : Session :=
  { session with units := session.units.setIfInBounds unit draft }

def addMethod (method : CompiledMethod) : Except CompilationError Session := do
  let draft ← session.draft unit
  return session.setDraft unit { draft with methods := draft.methods ++ [method] }

def addDelegate : Except CompilationError Session := do
  let draft ← session.draft unit
  return session.setDraft unit { draft with hasDelegate := true }

/-- An open unit sealed.  If it was the current one, its parent is next. -/
def sealUnit : Except CompilationError (CodeUnit × Session) := do
  let draft ← session.draft unit
  let code : CodeUnit :=
    { id := draft.id, name := draft.name, methods := draft.methods
      hasDelegate := draft.hasDelegate }
  let session := session.setDraft unit { draft with isSealed := true }
  let current := if session.current = some unit then draft.parent else session.current
  return (code, { session with current })

/-- An anonymous function whose code is a sealed unit.  A unit without a cell
gets one here. -/
def makeLambda (symbol : SymbolId) (unit : CodeUnit)
    (method : CompiledMethod) (delegateType : TypeHash) (signature : Signature) :
    CompiledLambda × Session :=
  let lambda (cell : CellId) : CompiledLambda :=
    { symbol, unit, method, delegateType, signature, cell }
  if unit.hasDelegate then
    (lambda (.unit unit.id), session)
  else
    (lambda (.loose session.number session.looseCells),
      { session with looseCells := session.looseCells + 1 })

def register (lambda : CompiledLambda) : Session :=
  { session with lambdas := session.lambdas.insert lambda.symbol lambda }

def enclose (numbering : Numbering) (symbol : SymbolId)
    (method : CompiledMethod) (delegateType : TypeHash) (signature : Signature) :
    Except CompilationError (CompiledLambda × Session × Numbering) := do
  let (unit, session, numbering) := session.openUnit numbering method.name
  let session ← session.addMethod unit method
  let session ← session.addDelegate unit
  let (code, session) ← session.sealUnit unit
  let (lambda, session) := session.makeLambda symbol code method delegateType signature
  return (lambda, session, numbering)

def lambda? (symbol : SymbolId) : Option CompiledLambda :=
  session.lambdas[symbol]?

def lambdaCount : Nat := session.lambdas.size

end Session
end OpMachine
