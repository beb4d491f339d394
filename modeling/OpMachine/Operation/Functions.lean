import OpMachine.Operation.Traversal

namespace OpMachine

/-!
Anonymous functions of an operation tree.

They are listed in post-order, so the functions written inside another one
stand before it.  A function that occurs twice is listed twice.
-/

structure FunctionNode where
  symbol : MethodSymbol
  body : Operation

namespace Operation

mutual

/-- The anonymous functions in a tree, the inner ones first.  The ones already
found stand before them. -/
def functionsAfter (found : Array FunctionNode) : Operation -> Array FunctionNode
  | .literal _ => found
  | .parameter _ _ => found
  | .localVariable _ _ => found
  | .implicitReceiver _ => found
  | .member _ _ receiver _ => functionsAfterOption found receiver
  | .element _ array indices => functionsAfterList (functionsAfter found array) indices
  | .binary _ _ left right => functionsAfter (functionsAfter found left) right
  | .unary _ _ operand => functionsAfter found operand
  | .conversion _ operand => functionsAfter found operand
  | .conditional _ condition whenTrue whenFalse =>
      functionsAfterOption (functionsAfter (functionsAfter found condition) whenTrue) whenFalse
  | .invocation _ receiver _ arguments =>
      functionsAfterList (functionsAfterOption found receiver) arguments
  | .anonymousFunction _ symbol body => (functionsAfter found body).push ⟨symbol, body⟩
  | .delegateCreation _ target => functionsAfter found target
  | .interpolation _ parts => functionsAfterParts found parts
  | .arrayCreation _ sizes none => functionsAfterList found sizes
  | .arrayCreation _ sizes (some items) =>
      functionsAfterList (functionsAfterList found sizes) items
  | .objectCreation _ _ arguments initializer =>
      functionsAfterList (functionsAfterList found arguments) initializer
  | .assignment _ target value => functionsAfter (functionsAfter found target) value
  | .compoundAssignment _ _ target value => functionsAfter (functionsAfter found target) value
  | .declaration _ _ initializer => functionsAfterOption found initializer
  | .block _ statements => functionsAfterList found statements
  | .expressionStatement _ expression => functionsAfter found expression
  | .parenthesized _ operand => functionsAfter found operand
  | .returnStatement _ value => functionsAfterOption found value
  | .whileLoop _ condition body => functionsAfter (functionsAfter found condition) body
  | .unsupported _ _ parts => functionsAfterList found parts

def functionsAfterOption (found : Array FunctionNode) :
    Option Operation -> Array FunctionNode
  | none => found
  | some operation => functionsAfter found operation

def functionsAfterList (found : Array FunctionNode) : List Operation -> Array FunctionNode
  | [] => found
  | operation :: rest => functionsAfterList (functionsAfter found operation) rest

def functionsAfterParts (found : Array FunctionNode) :
    List InterpolationPart -> Array FunctionNode
  | [] => found
  | .text _ :: rest => functionsAfterParts found rest
  | .hole value arguments :: rest =>
      functionsAfterParts (functionsAfterHole (functionsAfter found value) arguments) rest

def functionsAfterHole (found : Array FunctionNode) : List HoleArgument -> Array FunctionNode
  | [] => found
  | .alignment width :: rest => functionsAfterHole (functionsAfter found width) rest
  | .format _ :: rest => functionsAfterHole found rest

end

/-- The anonymous functions in a tree, in post-order. -/
def functions (operation : Operation) : List FunctionNode :=
  (functionsAfter #[] operation).toList

end Operation
end OpMachine
