import OpMachine.Document.Basic
import OpMachine.Factory.Basic

namespace OpMachine

/-!
Reading documents.

What is read may refer to what is already on the workbench: named symbols and
locals, values kept under a name, types of the catalog.  Values with an
identity are made on its heap.  A missing part stands for the default of its
type, where the type has one.
-/

/-- The words that a host uses for its own types. -/
structure Vocabulary where
  shape? : String -> Option Shape
  payload : String -> PayloadKind
  payloadWord : PayloadKind -> String

/-- What has been read and made so far. -/
structure Workbench where
  vocabulary : Vocabulary
  hasCatalog : Bool := false
  factory : Factory := { workspace := { catalog := {} } }
  kept : Std.HashMap String Value := {}
  symbols : Std.HashMap String MethodSymbol := {}
  locals : Std.HashMap String LocalSymbol := {}

/-- A computation at a workbench, which fails on a malformed document. -/
abbrev Reader := StateT Workbench (Except String)

namespace Reader

def require {α : Type} : Option α -> Reader α
  | some value => pure value
  | none => throw "malformed document"

def heap : Reader Heap := return (← get).factory.heap

def onHeap {α : Type} (action : Heap -> α × Heap) : Reader α :=
  modifyGet fun bench =>
    let (value, heap) := action bench.factory.heap
    (value, { bench with factory.heap := heap })

def lookup {α : Type} (action : Lookup α) : Reader (Option α) :=
  modifyGet fun bench =>
    let (answer, catalog) := bench.factory.catalog.lookup action
    (answer, { bench with factory.workspace.catalog := catalog })

def keep (name : String) (value : Value) : Reader Unit :=
  modify fun bench => { bench with kept := bench.kept.insert name value }

end Reader

/-- How a type is read, and what a missing part of that type stands for. -/
class Readable (α : Type) where
  read : Document -> Reader α
  absent : Reader α := throw "missing part"

namespace Document

def as {α : Type} [Readable α] (doc : Document) : Reader α := Readable.read doc

def get {α : Type} [Readable α] (doc : Document) (name : String) : Reader α :=
  match doc.field? name with
  | some part => Readable.read part
  | none => Readable.absent

/-- A named part as a value of a type, with a default. -/
def getD {α : Type} [Readable α] (doc : Document) (name : String) (default : α) :
    Reader α :=
  match doc.field? name with
  | some part => Readable.read part
  | none => pure default

def word (doc : Document) (name : String) : Reader String :=
  match doc.field? name with
  | some (.text content) => pure content
  | some _ => throw "not a text"
  | none => pure ""

def items (doc : Document) (name : String) : Reader (List Document) :=
  match doc.field? name with
  | some (.list items) => pure items
  | some _ => throw "not a list"
  | none => pure []

end Document

namespace Readable

instance : Readable Document := ⟨pure, pure .null⟩

instance : Readable String where
  read
    | .text content => pure content
    | _ => throw "not a text"
  absent := pure ""

instance : Readable Bool where
  read
    | .truth value => pure value
    | _ => throw "not a truth value"
  absent := pure false

/-- An integer may be written as a number or as decimal text. -/
instance : Readable Int where
  read
    | .number value => pure value
    | .text content => Reader.require content.toInt?
    | _ => throw "not an integer"
  absent := pure 0

instance : Readable Nat := ⟨fun doc => Int.toNat <$> read doc, pure 0⟩

instance : Readable Int32 := ⟨fun doc => Int32.ofInt <$> read doc, pure 0⟩

instance : Readable Int64 := ⟨fun doc => Int64.ofInt <$> read doc, pure 0⟩

instance : Readable UInt8 := ⟨fun doc => UInt8.ofNat <$> read doc, pure 0⟩

instance : Readable UInt16 := ⟨fun doc => UInt16.ofNat <$> read doc, pure 0⟩

instance : Readable UInt32 := ⟨fun doc => UInt32.ofNat <$> read doc, pure 0⟩

instance : Readable UInt64 := ⟨fun doc => UInt64.ofNat <$> read doc, pure 0⟩

instance {α : Type} [Readable α] : Readable (Option α) where
  read
    | .null => pure none
    | doc => some <$> read doc
  absent := pure none

instance {α : Type} [Readable α] : Readable (List α) where
  read
    | .list items => items.mapM read
    | _ => throw "not a list"
  absent := pure []

instance {α β : Type} [Readable α] [Readable β] : Readable (α × β) where
  read
    | .list [first, second] => return (← read first, ← read second)
    | _ => throw "not a pair"

instance {α : Type} [Readable α] : Readable (Std.HashMap String α) where
  read
    | .record fields => fields.foldlM
        (fun table (name, part) => return table.insert name (← read part)) {}
    | _ => throw "not a record"
  absent := pure {}

end Readable
end OpMachine
