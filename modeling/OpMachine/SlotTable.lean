import Std.Data.HashMap
import OpMachine.Error
import OpMachine.Symbol

namespace OpMachine

/-!
Slots of a method body.

Parameters live in argument slots, after the receiver if there is one, and
declared locals and temporaries live in local slots.  A parameter or local of
another method has no slot here, and asking for it fails.
-/

/-- Which slot belongs to which variable. -/
structure SlotTable where
  owner : SymbolId
  hasReceiver : Bool
  parameterCount : Nat
  locals : Std.HashMap SymbolId UInt16 := {}
  localCount : Nat := 0

namespace SlotTable

def ofMethod (method : MethodSymbol) (hasReceiver : Bool) : SlotTable :=
  { owner := method.id, hasReceiver, parameterCount := method.parameters.length }

def maximumLocals : Nat := 65535

variable (table : SlotTable)

def parameterSlot (parameter : ParameterSymbol) : Except CompilationError UInt8 :=
  if parameter.owner ≠ table.owner then
    .error (.unsupportedShape ("captured parameter '" ++ parameter.name ++ "'"))
  else
    let slot := parameter.ordinal + if table.hasReceiver then 1 else 0
    if slot < 256 then .ok slot.toUInt8
    else .error (.unsupportedShape "method with more than 255 parameters")

/-- A slot that belongs to no variable. -/
def fresh : Except CompilationError (UInt16 × SlotTable) :=
  if table.localCount < maximumLocals then
    .ok (table.localCount.toUInt16, { table with localCount := table.localCount + 1 })
  else
    .error (.unsupportedShape "method with more than 65535 locals")

/-- The slot of a local, which is a fresh one when it is first declared. -/
def declare (symbol : LocalSymbol) : Except CompilationError (UInt16 × SlotTable) :=
  match table.locals[symbol.id]? with
  | some slot => .ok (slot, table)
  | none => do
      let (slot, table) ← table.fresh
      return (slot, { table with locals := table.locals.insert symbol.id slot })

def localSlot (symbol : LocalSymbol) : Except CompilationError UInt16 :=
  match table.locals[symbol.id]? with
  | some slot => .ok slot
  | none => .error (.unsupportedShape ("captured local '" ++ symbol.name ++ "'"))

end SlotTable
end OpMachine
