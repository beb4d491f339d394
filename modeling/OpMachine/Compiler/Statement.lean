import OpMachine.Compiler.Expression

namespace OpMachine
namespace Compile

/-!
Compilation of statements and of whole bodies.

A body written as statements ends with a return of nothing, which is reached
when no statement returns before.  A body written as an expression returns its
value, or drops it when the method returns nothing.
-/

variable (surroundings : Surroundings)

/-- Without a result, what is returned is evaluated for its effects. -/
def returnCode (returnsValue : Bool) : Option Operation -> Compile Unit
  | some value =>
      if returnsValue then do
        code surroundings .kept value
        emit .returnValue
      else do
        code surroundings .discarded value
        emit .returnVoid
  | none =>
      if returnsValue then invalid "return with a value" "empty return"
      else emit .returnVoid

/-- A variable without initializer starts with the default of its type. -/
def startCode (symbol : LocalSymbol) : Option Operation -> Compile Unit
  | some initializer => code surroundings .kept initializer
  | none => do
      let type ← resolve symbol.type
      emit (.defaultValue type)

mutual

/-- The code of a statement.  A conditional without a type is a statement, and
everything that is no statement is evaluated for its effects. -/
def statementCode (surroundings : Surroundings) (returnsValue : Bool) :
    Operation -> Compile Unit
  | .block info statements => do
      emit (.setLine info.line)
      statementsCode surroundings returnsValue statements
  | .declaration info symbol initializer => do
      emit (.setLine info.line)
      let slot ← declareLocal symbol
      startCode surroundings symbol initializer
      emit (.setLocal slot)
  | .returnStatement info value => do
      emit (.setLine info.line)
      returnCode surroundings returnsValue value
  | .whileLoop info condition body => do
      emit (.setLine info.line)
      let start ← emit .offset
      code surroundings .kept condition
      let leave ← emit (.jump .jumpIfFalse)
      statementCode surroundings returnsValue body
      emit (.loop start)
      emit (.patch leave)
  | .conditional info condition whenTrue whenFalse =>
      match info.type with
      | some _ =>
          code surroundings .discarded (.conditional info condition whenTrue whenFalse)
      | none => do
          emit (.setLine info.line)
          code surroundings .kept condition
          let otherwise ← emit (.jump .jumpIfFalse)
          statementCode surroundings returnsValue whenTrue
          alternativeCode surroundings returnsValue otherwise whenFalse
  | .expressionStatement info expression => do
      emit (.setLine info.line)
      code surroundings .discarded expression
  | other => code surroundings .discarded other

def statementsCode (surroundings : Surroundings) (returnsValue : Bool) :
    List Operation -> Compile Unit
  | [] => return ()
  | head :: tail => do
      statementCode surroundings returnsValue head
      statementsCode surroundings returnsValue tail

/-- The code of the second branch of a conditional statement, which may be
missing.  The jump over the first branch is patched to it. -/
def alternativeCode (surroundings : Surroundings) (returnsValue : Bool) (otherwise : Label) :
    Option Operation -> Compile Unit
  | none => emit (.patch otherwise)
  | some branch => do
      let finish ← emit (.jump .jump)
      emit (.patch otherwise)
      statementCode surroundings returnsValue branch
      emit (.patch finish)

end

/-- The operations that leave no value when they are a whole body. -/
def isStatement : Operation -> Bool
  | .block _ _ => true
  | .declaration _ _ _ => true
  | .expressionStatement _ _ => true
  | .returnStatement _ _ => true
  | .whileLoop _ _ _ => true
  | .conditional info _ _ _ => info.type.isNone
  | _ => false

def bodyCode (returnsValue : Bool) (body : Operation) : Compile Unit := do
  if isStatement body then
    statementCode surroundings returnsValue body
    emit .returnVoid
  else if returnsValue then
    if body.producesValue then
      code surroundings .kept body
      emit .returnValue
    else
      invalid "value-producing expression body" body.shapeName
  else
    code surroundings .discarded body
    emit .returnVoid

end Compile
end OpMachine
