import OpMachine.Document.Types

namespace OpMachine

/-!
Symbols and operation trees from documents.

A symbol is written in place or by its name in the table on the workbench.
-/

namespace Readable

instance : Readable SymbolId := ⟨fun doc => SymbolId.mk <$> doc.as, pure ⟨0⟩⟩

def writtenMethod (doc : Document) : Reader MethodSymbol := do
  let id ← doc.get "id"
  let owner ← doc.getD "owner" (.simple "Calc")
  let bare : MethodSymbol ← match ← doc.word "kind" with
    | "ctor" => pure (.constructor id owner)
    | "lambda" => pure (.lambda id owner)
    | _ => pure { id, name := ← doc.get "name", containingType := owner }
  let parameters : List (String × Descriptor) ← doc.get "params"
  let symbol := parameters.foldl (fun symbol (name, type) => symbol.addParameter name type) bare
  return { symbol with
    returnType := ← doc.getD "ret" symbol.returnType
    isStatic := ← doc.getD "static" symbol.isStatic
    typeArguments := ← doc.get "targs" }

instance : Readable MethodSymbol where
  read
    | .text name => do Reader.require (← get).symbols[name]?
    | doc => writtenMethod doc

instance : Readable LocalSymbol where
  read
    | .text name => do Reader.require (← get).locals[name]?
    | doc => return {
        id := ← doc.get "id"
        name := ← doc.get "name"
        type := ← doc.get "ty" }

instance : Readable ParameterSymbol where
  read doc := do
    match doc.field? "of" with
    | some owner =>
        let symbol : MethodSymbol ← owner.as
        let index : Nat ← doc.get "i"
        Reader.require symbol.parameters[index]?
    | none =>
        return {
          name := ← doc.get "name"
          ordinal := ← doc.get "ordinal"
          type := ← doc.get "pty"
          owner := ← doc.get "owner" }

def symbolTables (doc : Document) : Reader Unit := do
  let symbols ← doc.get "symbols"
  let locals ← doc.get "locals"
  modify fun bench => { bench with symbols, locals }

instance : Readable BinaryOperator where
  read doc := do Reader.require (BinaryOperator.ofName? (← doc.as))

instance : Readable UnaryOperator where
  read doc := do Reader.require (UnaryOperator.ofName? (← doc.as))

def holeArgument [Readable Operation] (doc : Document) : Reader HoleArgument := do
  match doc.field? "al" with
  | some width => return .alignment (← width.as)
  | none => return .format (← doc.get "fm")

def interpolationPart [Readable Operation] (doc : Document) : Reader InterpolationPart := do
  match doc with
  | .text content => return .text content
  | _ => return .hole (← doc.get "v") (← (← doc.items "args").mapM holeArgument)

def memberReference [Readable Operation] (form : MemberForm) (doc : Document) :
    Reader Operation := do
  let symbol : MemberSymbol :=
    { name := ← doc.get "name"
      containingType := ← doc.get "owner"
      type := ← doc.get "mty"
      isStatic := ← doc.get "static" }
  return .ofMember form (← doc.get "on") symbol

/-- An operation with the attachments that its shape brings, given a reader
for its parts. -/
def bareOperation [Readable Operation] (doc : Document) : Reader Operation := do
  match ← doc.word "k" with
  | "lit" =>
      let literal : Option Literal ← doc.get "c"
      return (literal.map Operation.ofLiteral).getD (.literal {})
  | "param" => return .ofParameter (← doc.as)
  | "local" => return .ofLocal (← doc.get "l")
  | "recv" => return .implicitReceiver {}
  | "field" => memberReference .field doc
  | "prop" => memberReference .property doc
  | "elem" => return .element {} (← doc.get "a") (← doc.get "idx")
  | "bin" => return .binary {} (← doc.get "o") (← doc.get "l") (← doc.get "r")
  | "un" => return .unary {} (← doc.get "o") (← doc.get "x")
  | "conv" => return .conversion {} (← doc.get "x")
  | "cond" =>
      return .conditional {} (← doc.get "c") (← doc.get "t") (← doc.get "f")
  | "call" => return .call (← doc.get "on") (← doc.get "m") (← doc.get "args")
  | "anon" => return .anonymousFunction {} (← doc.get "m") (← doc.get "body")
  | "deleg" => return .delegateCreation {} (← doc.get "x")
  | "lambda" => return .lambda none (← doc.get "m") (← doc.get "body")
  | "interp" => return .interpolated (← (← doc.items "parts").mapM interpolationPart)
  | "newarr" => return .arrayCreation {} (← doc.get "dims") (← doc.get "init")
  | "new" => return .create (← doc.get "m") (← doc.get "args") (← doc.get "init")
  | "assign" => return .assign (← doc.get "t") (← doc.get "v")
  | "cassign" =>
      return .compoundAssign (← doc.get "o") (← doc.get "t") (← doc.get "v")
  | "decl" => return .declaration {} (← doc.get "l") (← doc.get "init")
  | "block" => return .block {} (← doc.get "s")
  | "stmt" => return .expressionStatement {} (← doc.get "x")
  | "paren" => return .parenthesize (← doc.get "x")
  | "ret" => return .returnStatement {} (← doc.get "x")
  | "while" => return .whileLoop {} (← doc.get "c") (← doc.get "b")
  | "unsup" => return .unsupported {} (← doc.get "kind") (← doc.get "ch")
  | _ => throw "not a shape of an operation"

/-- An operation with the attachments that the document gives it.  A type that
is written as null takes the type away. -/
def operationWith [Readable Operation] (doc : Document) : Reader Operation := do
  let bare ← bareOperation doc
  let type ← if doc.hasField "ty" then doc.get "ty" else pure bare.info.type
  let literal : Option Literal ← doc.get "const"
  let line ← doc.getD "line" bare.info.line
  return bare.withInfo { type, literal := literal <|> bare.info.literal, line }

def operation : Nat -> Document -> Reader Operation
  | 0, _ => tooDeep
  | levels + 1, doc => @operationWith ⟨operation levels, tooDeep⟩ doc

instance : Readable Operation where
  read doc := operation doc.depth doc

instance : Readable Declaration where
  read doc := do
    match doc.field? "method", doc.field? "expr" with
    | some symbol, _ => return .method ⟨← symbol.as, ← doc.get "body"⟩
    | none, some operation => return .expression (← operation.as)
    | none, none => return .other (← doc.get "other")

end Readable
end OpMachine
