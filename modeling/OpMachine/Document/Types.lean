import OpMachine.Document.Reader

namespace OpMachine

/-!
Identities, descriptors, type references and literals from documents.

Readers of nested things go down one level of the document at a time.  Each
takes a reader for the parts as an argument, and is tied to itself by a count
of levels, which the depth of the document bounds.
-/

namespace Readable

def tooDeep {α : Type} : Reader α := throw "nested too deeply"

def descriptorWith [Readable Descriptor] (doc : Document) : Reader Descriptor :=
  match doc, doc.firstField.1 with
  | .text name, _ => return .simple name
  | _, "void" => return .void
  | _, "arr" => return .array (← doc.get "arr") (← doc.getD "rank" 1)
  | _, "gp" => return .parameter (← doc.get "gp")
  | _, _ => return .named (← doc.get "n") (← doc.get "args")

def descriptor : Nat -> Document -> Reader Descriptor
  | 0, _ => tooDeep
  | levels + 1, doc => @descriptorWith ⟨descriptor levels, tooDeep⟩ doc

instance : Readable Descriptor where
  read doc := descriptor doc.depth doc

/-- The identities of the parameters of a method, as they enter its own. -/
def signatureHashes [Readable TypeRef] (doc : Document) : Reader (List TypeHash) := do
  let parameters : List TypeRef ← doc.get "params"
  return parameters.map TypeRef.signatureHash

/-- An identity: written out, computed from a name or from the owner and the
parameters of a member, or that of a descriptor in the catalog. -/
def hashWith [Readable TypeHash] [Readable TypeRef] (doc : Document) : Reader TypeHash := do
  match doc, doc.firstField with
  | .text content, _ =>
      match content.toList with
      | '0' :: 'x' :: digits => return ⟨.ofNat (← Reader.require (Text.ofHex? digits))⟩
      | _ => return .ofName content
  | _, ("d", part) =>
      let descriptor ← part.as
      if (← get).hasCatalog then
        return (← Reader.lookup (Catalog.resolve descriptor)).getD .empty
      return .empty
  | _, ("method", part) =>
      return .ofMethod (← part.get "owner") (← part.get "name") (← signatureHashes part)
  | _, ("ctor", part) => return .ofConstructor (← part.get "owner") (← signatureHashes part)
  | _, ("member", part) => return .ofMember (← part.get "owner") (← part.get "name")
  | _, _ => throw "not an identity"

def refWith [Readable TypeHash] [Readable TypeRef] (doc : Document) : Reader TypeRef := do
  match doc, doc.firstField with
  | .text name, _ => return .named name
  | _, ("tp", index) => return .typeParameter (← index.as)
  | _, ("mp", index) => return .methodParameter (← index.as)
  | _, ("arr", element) => return .vector (← element.as)
  | _, ("of", hash) => return .of (← hash.as)
  | _, _ => return .applied (← doc.get "gen_of") (← doc.get "args")

mutual

def hash : Nat -> Document -> Reader TypeHash
  | 0, _ => tooDeep
  | levels + 1, doc => @hashWith ⟨hash levels, tooDeep⟩ ⟨ref levels, tooDeep⟩ doc

def ref : Nat -> Document -> Reader TypeRef
  | 0, _ => tooDeep
  | levels + 1, doc => @refWith ⟨hash levels, tooDeep⟩ ⟨ref levels, tooDeep⟩ doc

end

instance : Readable TypeHash := ⟨fun doc => hash doc.depth doc, pure .empty⟩

instance : Readable TypeRef := ⟨fun doc => ref doc.depth doc, pure .void⟩

/-- The bits of a floating-point number, none for one that is no number. -/
def floatBits (doc : Document) : Reader (Option Nat) := do
  let content : String ← doc.as
  if content == "nan" then
    return none
  some <$> Reader.require (Text.ofHex? content.toList)

instance : Readable Literal where
  read doc := do
    match doc.firstField with
    | ("null", _) => return .null
    | ("bool", part) => return .bool (← part.as)
    | ("int", part) => return .int (← part.as)
    | ("int64", part) => return .int64 (← part.as)
    | ("uint", part) => return .uint (← part.as)
    | ("uint64", part) => return .uint64 (← part.as)
    | ("float", part) =>
        return .float (.ofBits (.ofNat ((← floatBits part).getD 0x7fc00000)))
    | ("double", part) =>
        return .double (.ofBits (.ofNat ((← floatBits part).getD 0x7ff8000000000000)))
    | ("string", part) => return .string (← part.as)
    | ("char", part) =>
        let content : String ← part.as
        return .char (← Reader.require content.toList.head?)
    | ("decimal", part) => return .decimal (← part.as) (← doc.get "scale")
    | _ => throw "not a literal"

instance : Readable Constant where
  read doc := do
    match doc.firstField with
    | ("hash", part) => return .hash (← part.as)
    | _ =>
        let literal : Literal ← doc.as
        match literal with
        | .int value => return .int value
        | .int64 value => return .int64 value
        | .uint value => return .uint value
        | .uint64 value => return .uint64 value
        | .float value => return .float value
        | .double value => return .double value
        | .string value => return .string value
        | _ => throw "not a pooled constant"

instance : Readable ConstantPool where
  read doc := do
    let constants : List Constant ← doc.as
    return constants.foldl (fun pool constant => (pool.add constant).2) {}
  absent := pure {}

instance : Readable Opcode where
  read doc := do Reader.require (Opcode.ofName? (← doc.as))

instance : Readable Shape where
  read doc := do
    let name ← doc.as
    Reader.require ((← get).vocabulary.shape? name)
  absent := pure .any

instance : Readable PayloadKind where
  read doc := do
    let name ← doc.as
    return (← get).vocabulary.payload name
  absent := return (← get).vocabulary.payload "A"

end Readable
end OpMachine
