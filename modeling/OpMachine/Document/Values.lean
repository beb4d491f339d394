import OpMachine.Document.Types

namespace OpMachine

/-!
Values, host actions and type definitions from documents.
-/

namespace Readable

/-- What a native function is, given a reader for the values it mentions. -/
def actionWith [Readable Value] (kind : PayloadKind) (doc : Document) :
    Reader HostAction := do
  match doc with
  | .list [.text "const", value] => return .native "const" [← value.as]
  | .list [.text "arg", index] => return .native "arg" [.int (← index.as)]
  | .list [.text "typed", .text word, index] =>
      return .native "typed" [.string word, .int (← index.as)]
  | .list [.text "get", .text slot] => return .native "get" [.string kind.name, .string slot]
  | .list [.text "set", .text slot] => return .native "set" [.string kind.name, .string slot]
  | .list [.text name, .text word] => return .native name [.string word]
  | .list [.text name] => return .native name []
  | _ => throw "not a host action"

/-- The code of a function value.  A host function goes by the name of its
action. -/
def bodyWith [Readable Value] (doc : Document) : Reader FunctionBody := do
  match doc.field? "native" with
  | some (.list (.text name :: parts)) =>
      let kind := (← get).vocabulary.payload "A"
      return .host ⟨.ofName name, ← actionWith kind (.list (.text name :: parts))⟩
  | _ => return .foreign (← doc.get "foreign")

def valueWith [Readable Value] (doc : Document) : Reader Value := do
  match doc.firstField with
  | ("void", _) => return .void
  | ("reg", name) =>
      let name : String ← name.as
      Reader.require (← get).kept[name]?
  | ("array", part) =>
      let elementType ← part.get "el"
      let items : List Value ← part.get "items"
      let dimensions ← part.getD "dims" [items.length]
      match (← Reader.heap).addFilled elementType dimensions items.toArray with
      | .ok made => return .array (← Reader.onHeap fun _ => made)
      | .error error => throw error.message
  | ("object", part) =>
      let data : Std.HashMap String Value ← part.get "data"
      let slots := data.toList.foldl (fun slots (slot, value) => Slots.put slots slot value) []
      let cell : ObjectCell :=
        ⟨← part.get "type", .record (← part.get "payload") slots, ← part.get "value"⟩
      return .object (← Reader.onHeap (·.addObject cell))
  | ("fn", part) =>
      let signature : Signature := ⟨← part.get "params", ← part.get "ret"⟩
      let cell : FunctionCell :=
        ⟨← part.get "type", signature, ← part.get "target", ← bodyWith part⟩
      return .function (← Reader.onHeap (·.addFunction cell))
  | _ => Reader.require (Value.ofLiteral? (← doc.as))

def value : Nat -> Document -> Reader Value
  | 0, _ => tooDeep
  | levels + 1, doc => @valueWith ⟨value levels, tooDeep⟩ doc

instance : Readable Value := ⟨fun doc => value doc.depth doc, pure .void⟩

def definitionStep (kind : PayloadKind) (definition : TypeDefinition) (step : Document) :
    Reader TypeDefinition := do
  let name ← step.word "name"
  let action : Reader HostAction := do actionWith kind (← step.get "do")
  let access : Reader SlotAccess := return {
    kind
    slot := ← step.getD "slot" name
    shape := ← step.get "as"
    fixed := ← step.get "const" }
  match ← step.word "s" with
  | "abstract" => return definition.abstract
  | "sealed" => return definition.sealed
  | "nullable" => return definition.nullable
  | "base" => return definition.derivedFrom name
  | "generic" => return definition.genericOver (← step.get "names")
  | "method" =>
      let method : MethodDefinition :=
        { name
          parameters := ← step.get "params"
          returnType := ← step.get "ret"
          isStatic := ← step.get "static"
          isVirtual := ← step.get "virtual"
          genericParameters := ← step.get "generic" }
      return definition.addMethod method (← action)
  | "sprop" => return definition.addStaticProperty name (← step.get "ty") (← action)
  | "default_ctor" => return definition.addConstructor kind [] []
  | "ctor" => return definition.addConstructor kind (← step.get "params") (← step.get "sets")
  | "field" => return definition.addField name (← step.get "ty") (← access)
  | "prop" => return definition.addProperty name (← step.get "ty") (← access) false
  | "vprop" => return definition.addProperty name (← step.get "ty") (← access) true
  | "prop_rw" => return definition.addWritableProperty name (← step.get "ty") (← access)
  | _ => throw "not a step of a type definition"

def emptyDefinition (doc : Document) : Reader TypeDefinition := do
  let name ← doc.word "name"
  match ← doc.word "kind" with
  | "class" => return .ofClass name
  | "value" => return .ofValueType name
  | "interface" => return .ofInterface name
  | "static" => return .ofStatic name
  | "primitive" => return .ofPrimitive name (← doc.getD "valuetype" true)
  | "array" => return .ofArray (← doc.getD "rank" 1)
  | "delegate" => return .ofDelegate name (← doc.get "params") (← doc.get "ret")
  | _ => throw "not a kind of type"

instance : Readable TypeDefinition where
  read doc := do
    let kind ← doc.get "payload"
    (← doc.items "steps").foldlM (definitionStep kind) (← emptyDefinition doc)

end Readable
end OpMachine
