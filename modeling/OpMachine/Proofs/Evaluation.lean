import OpMachine.Arithmetic
import OpMachine.Conversion
import OpMachine.Compiler.Statement

namespace OpMachine

/-!
# Evaluation of scalar trees

A reference semantics for the operation trees that compute with scalars: it
evaluates a tree directly, with the variables in a store and the statements
saying whether the method is left.  There is no code, no operand stack and no
slot.  Locals are kept by the identity of their symbol and hold nothing at
first; parameters are kept by their ordinal.

Loops make the recursion partial, so an evaluation is given a number of rounds
that every loop may make, and it is unfinished when a loop wants more.
-/

/-- Whether a value is neither an array nor an object nor a function. -/
def Value.isScalar : Value -> Bool
  | .array _ | .object _ | .function _ => false
  | _ => true

/-! ## Operators -/

open Arithmetic

/-- The result of an operator.  Both operands of the logical operators are
used, and three comparisons are the complement of another one. -/
def BinaryOperator.apply (operator : BinaryOperator) (left right : Value) :
    Except RuntimeError Value :=
  match operator with
  | .add => binary .add left right
  | .subtract => binary .sub left right
  | .multiply => binary .mul left right
  | .divide => binary .div left right
  | .remainder => binary .rem left right
  | .and | .conditionalAnd => binary .bitAnd left right
  | .or | .conditionalOr => binary .bitOr left right
  | .exclusiveOr => binary .bitXor left right
  | .leftShift => binary .shl left right
  | .rightShift => binary .shr left right
  | .equals => return .bool (left.equals right)
  | .notEquals => return .bool !(left.equals right)
  | .lessThan => return .bool (← compare .lt left right)
  | .lessThanOrEqual => return .bool !(← compare .gt left right)
  | .greaterThan => return .bool (← compare .gt left right)
  | .greaterThanOrEqual => return .bool !(← compare .lt left right)

def UnaryOperator.apply (operator : UnaryOperator) (operand : Value) :
    Except RuntimeError Value :=
  match operator with
  | .plus => return operand
  | .negate => unary .neg operand
  | .not => unary .not operand
  | .bitwiseNot => unary .bitNot operand

/-! ## Stores -/

/-- A variable of an activation. -/
inductive Variable where
  | parameter (ordinal : Nat)
  | localVariable (id : SymbolId)

/-- The variable that an assignment names, which may stand in parentheses. -/
def Operation.variable? : Operation -> Option Variable
  | .parameter _ symbol => some (.parameter symbol.ordinal)
  | .localVariable _ symbol => some (.localVariable symbol.id)
  | .parenthesized _ operand => operand.variable?
  | _ => none

/-- The values of the variables of an activation. -/
structure Store where
  arguments : Array Value
  locals : SymbolId -> Value

namespace Store

/-- The store on entry: no local has a value. -/
def initial (arguments : List Value) : Store := ⟨arguments.toArray, fun _ => .void⟩

def get (store : Store) : Variable -> Value
  | .parameter ordinal => store.arguments.getD ordinal .void
  | .localVariable id => store.locals id

def set (store : Store) (value : Value) : Variable -> Store
  | .parameter ordinal => { store with arguments := store.arguments.setIfInBounds ordinal value }
  | .localVariable id =>
    { store with locals := fun other => if other = id then value else store.locals other }

end Store

/-! ## Evaluation -/

/-- Why an evaluation gives no value. -/
inductive Halt where
  | failed (error : RuntimeError)
  /-- A loop wants more rounds than it may make. -/
  | unfinished
  /-- The tree does not only compute with scalars. -/
  | outside

/-- An evaluation in a store. -/
abbrev Evaluate := EStateM Halt Store

/-- What follows a statement. -/
inductive Flow where
  | next
  | leave (value : Value)

namespace Evaluate

/-- An answer or a failure of an operator. -/
def check {α : Type} (result : Except RuntimeError α) : Evaluate α :=
  match result with
  | .ok value => return value
  | .error error => throw (.failed error)

/-- The answer of a called method, which leaves the store alone. -/
def called {α : Type} (result : Except Halt α) : Evaluate α :=
  match result with
  | .ok value => return value
  | .error halt => throw halt

/-- The truth value that a condition must have. -/
def truth (value : Value) : Evaluate Bool :=
  match Conversion.readBool value with
  | .ok value => return value
  | .error error => throw (.failed (.conversion error))

def read (place : Variable) : Evaluate Value := return (← get).get place

def write (place : Variable) (value : Value) : Evaluate Unit := modify (·.set value place)

def loop (condition : Evaluate Bool) (body : Evaluate Flow) : Nat -> Evaluate Flow
  | 0 => throw .unfinished
  | rounds + 1 => do
      if ← condition then
        match ← body with
        | .next => loop condition body rounds
        | .leave value => return .leave value
      else return .next

end Evaluate

def Catalog.denoted? (catalog : Catalog) (descriptor : Descriptor) : Option TypeHash :=
  (catalog.lookup (resolve descriptor)).1

/-- What an evaluation relies on. -/
structure Evaluator where
  rounds : Nat
  typeOf : Descriptor -> Option TypeHash
  returnsValue : Bool
  call : MethodSymbol -> List Value -> Except Halt Value

namespace Evaluator

variable (evaluator : Evaluator)

def kindOf (type : Option Descriptor) : Option NumericKind :=
  type >>= evaluator.typeOf >>= NumericKind.ofType?

/-- A conversion between static types, which changes numbers only. -/
def converted (source target : Option Descriptor) (value : Value) : Except RuntimeError Value :=
  match evaluator.kindOf target, evaluator.kindOf source with
  | some kind, some other => if kind = other then .ok value else convert kind value
  | _, _ => .ok value

mutual

/-- The value of an expression, its operands from the left. -/
def value (evaluator : Evaluator) : Operation -> Evaluate Value
  | .literal info =>
    match info.literal >>= Value.ofLiteral? with
    | some value => return value
    | none => throw .outside
  | .parameter _ symbol => .read (.parameter symbol.ordinal)
  | .localVariable _ symbol => .read (.localVariable symbol.id)
  | .binary _ operator left right => do
      let first ← value evaluator left
      let second ← value evaluator right
      .check (operator.apply first second)
  | .unary _ operator operand => do .check (operator.apply (← value evaluator operand))
  | .conversion info operand => do
      .check (evaluator.converted operand.type info.type (← value evaluator operand))
  | .conditional _ condition whenTrue (some whenFalse) => do
      if ← .truth (← value evaluator condition) then value evaluator whenTrue
      else value evaluator whenFalse
  | .assignment _ target operand => do
      let result ← value evaluator operand
      match target.variable? with
      | some place =>
        .write place result
        return result
      | none => throw .outside
  | .compoundAssignment _ operator target operand => do
      match target.variable? with
      | some place =>
        let old ← .read place
        let result ← .check (operator.apply old (← value evaluator operand))
        .write place result
        return result
      | none => throw .outside
  | .parenthesized _ operand => value evaluator operand
  | .invocation _ none method arguments => do
      .called (evaluator.call method (← values evaluator arguments))
  | _ => throw .outside

def values (evaluator : Evaluator) : List Operation -> Evaluate (List Value)
  | [] => return []
  | head :: tail => do
      let first ← value evaluator head
      let rest ← values evaluator tail
      return first :: rest

end

def start (symbol : LocalSymbol) : Option Operation -> Evaluate Value
  | some initializer => evaluator.value initializer
  | none =>
    match evaluator.typeOf symbol.type with
    | some type => return Catalog.defaultValue type
    | none => throw .outside

mutual

/-- The effect of a statement.  A conditional with a type is an expression, and
so is everything that is no statement. -/
def statement (evaluator : Evaluator) : Operation -> Evaluate Flow
  | .block _ operations => statements evaluator operations
  | .declaration _ symbol initializer => do
      .write (.localVariable symbol.id) (← evaluator.start symbol initializer)
      return .next
  | .returnStatement _ (some operand) => do
      let result ← evaluator.value operand
      return .leave (if evaluator.returnsValue then result else .void)
  | .returnStatement _ none =>
    if evaluator.returnsValue then throw .outside else return .leave .void
  | .whileLoop _ condition body =>
    .loop (do .truth (← evaluator.value condition)) (statement evaluator body)
      evaluator.rounds
  | .conditional info condition whenTrue whenFalse => do
      if info.type.isSome then
        let _ ← evaluator.value (.conditional info condition whenTrue whenFalse)
        return .next
      else if ← .truth (← evaluator.value condition) then statement evaluator whenTrue
      else alternative evaluator whenFalse
  | .expressionStatement _ expression => do
      let _ ← evaluator.value expression
      return .next
  | other => do
      let _ ← evaluator.value other
      return .next

/-- The effect of statements in order, until one leaves the method. -/
def statements (evaluator : Evaluator) : List Operation -> Evaluate Flow
  | [] => return .next
  | head :: tail => do
      match ← statement evaluator head with
      | .next => statements evaluator tail
      | .leave value => return .leave value

/-- The effect of the second branch of a conditional, which may be missing. -/
def alternative (evaluator : Evaluator) : Option Operation -> Evaluate Flow
  | some branch => statement evaluator branch
  | none => return .next

end

/-- The result of a body.  It is nothing when no statement returns, and when
the method returns nothing. -/
def body (operation : Operation) : Evaluate Value := do
  if Compile.isStatement operation then
    match ← evaluator.statement operation with
    | .next => return .void
    | .leave value => return value
  else
    let result ← evaluator.value operation
    return if evaluator.returnsValue then result else .void

def result (operation : Operation) (arguments : List Value) : Except Halt Value :=
  match evaluator.body operation (.initial arguments) with
  | .ok value _ => .ok value
  | .error halt _ => .error halt

theorem statement_of_expression (evaluator : Evaluator)
    (isExpression : Compile.isStatement operation = false) :
    evaluator.statement operation = (do
      let _ ← evaluator.value operation
      return .next) := by
  cases operation with
  | block | declaration | expressionStatement | returnStatement | whileLoop => cases isExpression
  | conditional info =>
    have typed : info.type.isSome = true := Option.isNone_eq_false_iff.mp isExpression
    simp only [statement, typed, if_true]
  | _ => rfl

end Evaluator

/-! ## The scalar fragment -/

/-- Whether a literal is kept apart from every other one of its kind in a pool
of constants.  Floating-point numbers are not: the two zeros are one there. -/
def Literal.isExact : Literal -> Bool
  | .float _ | .double _ => false
  | _ => true

namespace Operation

/-- A variable of the method itself, which has a number of parameters. -/
def IsVariable (parameterCount : Nat) : Operation -> Prop
  | .parameter _ symbol => symbol.ordinal < parameterCount
  | .localVariable _ _ => True
  | .parenthesized _ operand => operand.IsVariable parameterCount
  | _ => False

section

variable (parameterCount : Nat) (callable : MethodSymbol -> Prop)

mutual

/-- An expression that computes with scalars.  Every operand has a type that is
not void; a call has one exactly when its method returns a value, and
parentheses have one exactly when what they enclose does. -/
def IsScalar : Operation -> Prop
  | .literal info => info.producesValue = true ∧ info.literal.all Literal.isExact = true
  | .parameter info symbol => info.producesValue = true ∧ symbol.ordinal < parameterCount
  | .localVariable info _ => info.producesValue = true
  | .binary info _ left right => info.producesValue = true
      ∧ (left.producesValue = true ∧ IsScalar left) ∧ right.producesValue = true ∧ IsScalar right
  | .unary info _ operand => info.producesValue = true
      ∧ operand.producesValue = true ∧ IsScalar operand
  | .conversion info operand => info.producesValue = true
      ∧ operand.producesValue = true ∧ IsScalar operand
  | .conditional info condition whenTrue (some whenFalse) => info.producesValue = true
      ∧ (condition.producesValue = true ∧ IsScalar condition)
      ∧ (whenTrue.producesValue = true ∧ IsScalar whenTrue)
      ∧ whenFalse.producesValue = true ∧ IsScalar whenFalse
  | .assignment info target value => info.producesValue = true
      ∧ target.IsVariable parameterCount ∧ value.producesValue = true ∧ IsScalar value
  | .compoundAssignment info _ target value => info.producesValue = true
      ∧ target.IsVariable parameterCount ∧ value.producesValue = true ∧ IsScalar value
  | .parenthesized info operand => info.producesValue = operand.producesValue ∧ IsScalar operand
  | .invocation info none method arguments => info.producesValue = method.returnsValue
      ∧ callable method ∧ AreScalar arguments
  | _ => False

def AreScalar : List Operation -> Prop
  | [] => True
  | head :: tail => (head.producesValue = true ∧ IsScalar head) ∧ AreScalar tail

end

def IsScalarOperand (operation : Operation) : Prop :=
  operation.producesValue = true ∧ operation.IsScalar parameterCount callable

mutual

def IsScalarStatement : Operation -> Prop
  | .block _ operations => AreScalarStatements operations
  | .declaration _ _ none => True
  | .declaration _ _ (some initializer) => initializer.IsScalarOperand parameterCount callable
  | .returnStatement _ none => True
  | .returnStatement _ (some value) => value.IsScalarOperand parameterCount callable
  | .whileLoop _ condition body =>
    condition.IsScalarOperand parameterCount callable ∧ IsScalarStatement body
  | .conditional info condition whenTrue none => info.type = none
      ∧ condition.IsScalarOperand parameterCount callable ∧ IsScalarStatement whenTrue
  | .conditional info condition whenTrue (some whenFalse) =>
    if info.type.isSome then
      (conditional info condition whenTrue (some whenFalse)).IsScalar parameterCount callable
    else condition.IsScalarOperand parameterCount callable
      ∧ IsScalarStatement whenTrue ∧ IsScalarStatement whenFalse
  | .expressionStatement _ expression => expression.IsScalar parameterCount callable
  | other => other.IsScalar parameterCount callable

def AreScalarStatements : List Operation -> Prop
  | [] => True
  | head :: tail => IsScalarStatement head ∧ AreScalarStatements tail

end

end

theorem isScalar_of_expression (isExpression : Compile.isStatement operation = false)
    (scalar : operation.IsScalarStatement parameterCount callable) :
    operation.IsScalar parameterCount callable := by
  cases operation with
  | block | declaration | expressionStatement | returnStatement | whileLoop => cases isExpression
  | conditional info _ _ whenFalse =>
    have typed : info.type.isSome = true := Option.isNone_eq_false_iff.mp isExpression
    cases whenFalse with
    | none => cases typed.symm.trans (congrArg Option.isSome scalar.1)
    | some => simpa only [IsScalarStatement, typed, if_true] using scalar
  | _ => exact scalar

end Operation
end OpMachine
