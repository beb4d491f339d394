import OpMachine.Proofs.Evaluation

namespace OpMachine

/-!
# Evaluation of trees with arrays

The reference semantics of scalar trees extended by arrays: their creation, the
access to their elements and the assignment to them.  An evaluation has a heap
besides the store.  Operands are evaluated from the left and once each, and
only then is an element found, with its indices checked.  What an operator, a
variable or a condition means is taken over from the evaluation of scalars, so
a scalar tree means the same in both.

A compound assignment to an element reads it and writes it.  The write comes
last, but the element may be read before or after the value that it is combined
with.  The difference can be observed, hence the evaluation is given an
`UpdateOrder`.
-/

/-- When a compound assignment reads the element that it updates. -/
inductive UpdateOrder where
  /-- After the indices and before the value. -/
  | readFirst
  /-- After the value, together with the write. -/
  | valueFirst

/-! ## Elements -/

/-- Whether a value is shared when it is stored.  Objects may be duplicated. -/
def Value.isShared : Value -> Bool
  | .object _ => false
  | _ => true

theorem Value.isShared_of_isScalar {value : Value} (scalar : value.isScalar = true) :
    value.isShared = true := by
  cases value with
  | object => cases scalar
  | _ => rfl

/-- A heap none of whose arrays has an object among its items. -/
def Heap.SharesItems (heap : Heap) : Prop :=
  ∀ cell, cell ∈ heap.arrays -> ∀ item, item ∈ cell.items -> item.isShared = true

/-- The number of items before the one with given indices: each index counts
the items of the dimensions behind its own.  The first index that lies outside
of its dimension is refused. -/
def ArrayCell.itemsBefore : List Nat -> List Int -> Except RuntimeError Nat
  | dimension :: dimensions, index :: indices =>
    if 0 ≤ index ∧ index < dimension then
      return index.toNat * dimensions.foldr (· * ·) 1 + (← itemsBefore dimensions indices)
    else .error (.indexOutOfRange index dimension)
  | _, _ => .ok 0

/-- The position of an element, which has an index for every dimension. -/
def ArrayCell.position (cell : ArrayCell) (indices : List Int) : Except RuntimeError Nat :=
  if indices.length = cell.rank then itemsBefore cell.dimensions indices
  else .error (.typeMismatch (toString cell.rank ++ " indices")
    (toString indices.length ++ " indices"))

namespace Heap

def item (heap : Heap) (ref : ArrayRef) (indices : List Int) : Except RuntimeError Value :=
  return (heap.array ref).items.getD (← (heap.array ref).position indices) .void

/-- A heap with another item of an array at some indices. -/
def withItem (heap : Heap) (ref : ArrayRef) (indices : List Int) (value : Value) :
    Except RuntimeError Heap := do
  let position ← (heap.array ref).position indices
  return { heap with arrays := heap.arrays.modify ref.index fun cell =>
    { cell with items := cell.items.setIfInBounds position value } }

/-- A heap with a new array that holds the default value of its elements. -/
def withArray (heap : Heap) (element : TypeHash) (dimensions : List Nat) :
    Except RuntimeError (ArrayRef × Heap) := do
  let count ← itemCount dimensions
  return heap.addArray
    ⟨element, dimensions, Array.replicate count (Catalog.defaultValue element)⟩

end Heap

def Value.integers (values : List Value) : Except RuntimeError (List Int) :=
  match values.mapM Conversion.readInt64 with
  | .ok integers => .ok (integers.map (·.toInt))
  | .error error => .error (.conversion error)

/-- The dimensions of sizes, none of which may be negative. -/
def Heap.extents : List Int -> Except RuntimeError (List Nat)
  | [] => .ok []
  | size :: rest =>
    if size < 0 then .error (.indexOutOfRange size 0)
    else return size.toNat :: (← extents rest)

def Value.toArray : Value -> Except RuntimeError ArrayRef
  | .array ref => .ok ref
  | .null | .void => .error (.nullReference "array element access")
  | other => .error (.typeMismatch "array" other.kindName)

def Value.element (array : Value) (indices : List Value) :
    Except RuntimeError (ArrayRef × List Int) := do
  let places ← integers indices
  let ref ← array.toArray
  return (ref, places)

/-! ## Evaluations on a heap -/

/-- What an evaluation of a tree with arrays changes. -/
structure World where
  store : Store
  heap : Heap

/-- An evaluation in a store and on a heap. -/
abbrev Perform := EStateM Halt World

namespace Perform

variable {α : Type}

/-- An evaluation that leaves the heap alone. -/
def onStore (action : Evaluate α) : Perform α := fun world =>
  match action world.store with
  | .ok value store => .ok value { world with store }
  | .error halt store => .error halt { world with store }

def check (result : Except RuntimeError α) : Perform α := .onStore (.check result)

def called (result : Except Halt α) : Perform α := .onStore (.called result)

def truth (value : Value) : Perform Bool := .onStore (.truth value)

def read (place : Variable) : Perform Value := .onStore (.read place)

def write (place : Variable) (value : Value) : Perform Unit := .onStore (.write place value)

def loop (condition : Perform Bool) (body : Perform Flow) : Nat -> Perform Flow
  | 0 => throw .unfinished
  | rounds + 1 => do
      if ← condition then
        match ← body with
        | .next => loop condition body rounds
        | .leave value => return .leave value
      else return .next

/-- An answer of the heap. -/
def ask (question : Heap -> Except RuntimeError α) : Perform α := do
  check (question (← get).heap)

/-- A change of the heap that may fail. -/
def change (step : Heap -> Except RuntimeError (α × Heap)) : Perform α := do
  let (answer, heap) ← ask step
  modify fun world => { world with heap }
  return answer

def readElement (array : Value) (indices : List Value) : Perform Value := do
  let (ref, places) ← check (array.element indices)
  ask fun heap => heap.item ref places

def writeElement (array : Value) (indices : List Value) (value : Value) : Perform Unit := do
  let (ref, places) ← check (array.element indices)
  change fun heap => return ((), ← heap.withItem ref places value)

def create (element : TypeHash) (dimensions : List Nat) : Perform ArrayRef :=
  change fun heap => heap.withArray element dimensions

end Perform

namespace Evaluator

variable (evaluator : Evaluator)

def elementType (info : Info) : Option TypeHash :=
  match info.type with
  | some (.array element _) => evaluator.typeOf element
  | _ => none

def newArray (info : Info) (dimensions : List Nat) : Perform ArrayRef :=
  match evaluator.elementType info with
  | some element => .create element dimensions
  | none => throw .outside

/-- A variable that is combined with a value. -/
def updateVariable (place : Variable) (operator : BinaryOperator) (operand : Perform Value) :
    Perform Value := do
  let old ← .read place
  let result ← .check (operator.apply old (← operand))
  .write place result
  return result

/-- An element that is combined with a value. -/
def updateElement (order : UpdateOrder) (array : Value) (indices : List Value)
    (operator : BinaryOperator) (operand : Perform Value) : Perform Value := do
  let (old, new) ← match order with
    | .readFirst => do
        let old ← .readElement array indices
        pure (old, ← operand)
    | .valueFirst => do
        let new ← operand
        pure (← .readElement array indices, new)
  let result ← .check (operator.apply old new)
  .writeElement array indices result
  return result

mutual

/-- The value of an expression, its operands from the left. -/
def perform (evaluator : Evaluator) (order : UpdateOrder) : Operation -> Perform Value
  | .literal info => .onStore (evaluator.value (.literal info))
  | .parameter _ symbol => .read (.parameter symbol.ordinal)
  | .localVariable _ symbol => .read (.localVariable symbol.id)
  | .element _ array indices => do
      let receiver ← perform evaluator order array
      let places ← performAll evaluator order indices
      .readElement receiver places
  | .binary _ operator left right => do
      let first ← perform evaluator order left
      let second ← perform evaluator order right
      .check (operator.apply first second)
  | .unary _ operator operand => do .check (operator.apply (← perform evaluator order operand))
  | .conversion info operand => do
      .check (evaluator.converted operand.type info.type (← perform evaluator order operand))
  | .conditional _ condition whenTrue (some whenFalse) => do
      if ← .truth (← perform evaluator order condition) then perform evaluator order whenTrue
      else perform evaluator order whenFalse
  | .arrayCreation info sizes none => do
      let lengths ← .check (Value.integers (← performAll evaluator order sizes))
      return .array (← evaluator.newArray info (← .check (Heap.extents lengths)))
  | .arrayCreation info [] (some items) => do
      let ref ← evaluator.newArray info [items.length]
      fill evaluator order ref 0 items
      return .array ref
  | .arrayCreation info sizes (some items) => do
      let lengths ← .check (Value.integers (← performAll evaluator order sizes))
      let ref ← evaluator.newArray info (← .check (Heap.extents lengths))
      fill evaluator order ref 0 items
      return .array ref
  | .assignment _ target operand => assign evaluator order (perform evaluator order operand) target
  | .compoundAssignment _ operator target operand =>
    update evaluator order operator (perform evaluator order operand) target
  | .parenthesized _ operand => perform evaluator order operand
  | .invocation _ none method arguments => do
      .called (evaluator.call method (← performAll evaluator order arguments))
  | _ => throw .outside

def performAll (evaluator : Evaluator) (order : UpdateOrder) :
    List Operation -> Perform (List Value)
  | [] => return []
  | head :: tail => do
      let first ← perform evaluator order head
      let rest ← performAll evaluator order tail
      return first :: rest

/-- The items of an initializer, each stored before the next one is evaluated. -/
def fill (evaluator : Evaluator) (order : UpdateOrder) (ref : ArrayRef) :
    Nat -> List Operation -> Perform Unit
  | _, [] => return ()
  | position, item :: rest => do
      let value ← perform evaluator order item
      .change fun heap => return ((), ← heap.withItem ref [(position : Int)] value)
      fill evaluator order ref (position + 1) rest

def assign (evaluator : Evaluator) (order : UpdateOrder) (operand : Perform Value) :
    Operation -> Perform Value
  | .parameter _ symbol => do
      let result ← operand
      .write (.parameter symbol.ordinal) result
      return result
  | .localVariable _ symbol => do
      let result ← operand
      .write (.localVariable symbol.id) result
      return result
  | .element _ array indices => do
      let receiver ← perform evaluator order array
      let places ← performAll evaluator order indices
      let result ← operand
      .writeElement receiver places result
      return result
  | .parenthesized _ target => assign evaluator order operand target
  | _ => throw .outside

/-- A compound assignment to a variable or to an element. -/
def update (evaluator : Evaluator) (order : UpdateOrder) (operator : BinaryOperator)
    (operand : Perform Value) : Operation -> Perform Value
  | .parameter _ symbol => updateVariable (.parameter symbol.ordinal) operator operand
  | .localVariable _ symbol => updateVariable (.localVariable symbol.id) operator operand
  | .element _ array indices => do
      let receiver ← perform evaluator order array
      let places ← performAll evaluator order indices
      updateElement order receiver places operator operand
  | .parenthesized _ target => update evaluator order operator operand target
  | _ => throw .outside

end

def performStart (order : UpdateOrder) (symbol : LocalSymbol) : Option Operation -> Perform Value
  | some initializer => evaluator.perform order initializer
  | none => .onStore (evaluator.start symbol none)

mutual

/-- The effect of a statement. -/
def act (evaluator : Evaluator) (order : UpdateOrder) : Operation -> Perform Flow
  | .block _ operations => actAll evaluator order operations
  | .declaration _ symbol initializer => do
      .write (.localVariable symbol.id) (← evaluator.performStart order symbol initializer)
      return .next
  | .returnStatement _ (some operand) => do
      let result ← evaluator.perform order operand
      return .leave (if evaluator.returnsValue then result else .void)
  | .returnStatement _ none =>
    if evaluator.returnsValue then throw .outside else return .leave .void
  | .whileLoop _ condition body =>
    .loop (do .truth (← evaluator.perform order condition)) (act evaluator order body)
      evaluator.rounds
  | .conditional info condition whenTrue whenFalse => do
      if info.type.isSome then
        let _ ← evaluator.perform order (.conditional info condition whenTrue whenFalse)
        return .next
      else if ← .truth (← evaluator.perform order condition) then act evaluator order whenTrue
      else actElse evaluator order whenFalse
  | .expressionStatement _ expression => do
      let _ ← evaluator.perform order expression
      return .next
  | other => do
      let _ ← evaluator.perform order other
      return .next

/-- The effect of statements in order, until one leaves the method. -/
def actAll (evaluator : Evaluator) (order : UpdateOrder) : List Operation -> Perform Flow
  | [] => return .next
  | head :: tail => do
      match ← act evaluator order head with
      | .next => actAll evaluator order tail
      | .leave value => return .leave value

/-- The effect of the second branch of a conditional, which may be missing. -/
def actElse (evaluator : Evaluator) (order : UpdateOrder) : Option Operation -> Perform Flow
  | some branch => act evaluator order branch
  | none => return .next

end

def performBody (order : UpdateOrder) (operation : Operation) : Perform Value := do
  if Compile.isStatement operation then
    match ← evaluator.act order operation with
    | .next => return .void
    | .leave value => return value
  else
    let result ← evaluator.perform order operation
    return if evaluator.returnsValue then result else .void

/-- The result of a method on arguments and a heap, and the heap that it leaves. -/
def outcome (order : UpdateOrder) (operation : Operation)
    (arguments : List Value) (heap : Heap) : Except Halt Value × Heap :=
  match evaluator.performBody order operation ⟨.initial arguments, heap⟩ with
  | .ok value world => (.ok value, world.heap)
  | .error halt world => (.error halt, world.heap)

theorem act_of_expression (evaluator : Evaluator) (order : UpdateOrder)
    (isExpression : Compile.isStatement operation = false) :
    evaluator.act order operation = (do
      let _ ← evaluator.perform order operation
      return .next) := by
  cases operation with
  | block | declaration | expressionStatement | returnStatement | whileLoop => cases isExpression
  | conditional info =>
    have typed : info.type.isSome = true := Option.isNone_eq_false_iff.mp isExpression
    simp only [act, typed, if_true]
  | _ => rfl

end Evaluator

/-! ## The fragment with arrays -/

namespace Operation

section

variable (arrays : Prop) (parameterCount : Nat) (callable : MethodSymbol -> Prop)

mutual

/-- An expression that computes with scalars, and with arrays where these are
allowed.  Every operand has a type that is not void; a call has one exactly
when its method returns a value, and parentheses have one exactly when what they
enclose does. -/
def Computes : Operation -> Prop
  | .literal info => info.producesValue = true ∧ info.literal.all Literal.isExact = true
  | .parameter info symbol => info.producesValue = true ∧ symbol.ordinal < parameterCount
  | .localVariable info _ => info.producesValue = true
  | .element info array indices => info.producesValue = true
      ∧ arrays ∧ (array.producesValue = true ∧ Computes array) ∧ AllCompute indices
  | .binary info _ left right => info.producesValue = true
      ∧ (left.producesValue = true ∧ Computes left) ∧ right.producesValue = true ∧ Computes right
  | .unary info _ operand => info.producesValue = true
      ∧ operand.producesValue = true ∧ Computes operand
  | .conversion info operand => info.producesValue = true
      ∧ operand.producesValue = true ∧ Computes operand
  | .conditional info condition whenTrue (some whenFalse) => info.producesValue = true
      ∧ (condition.producesValue = true ∧ Computes condition)
      ∧ (whenTrue.producesValue = true ∧ Computes whenTrue)
      ∧ whenFalse.producesValue = true ∧ Computes whenFalse
  | .arrayCreation info sizes none => info.producesValue = true ∧ arrays ∧ AllCompute sizes
  | .arrayCreation info sizes (some items) => info.producesValue = true
      ∧ arrays ∧ AllCompute sizes ∧ AllCompute items
  | .assignment info target value => info.producesValue = true
      ∧ IsTarget target ∧ value.producesValue = true ∧ Computes value
  | .compoundAssignment info _ target value => info.producesValue = true
      ∧ IsTarget target ∧ value.producesValue = true ∧ Computes value
  | .parenthesized info operand => info.producesValue = operand.producesValue ∧ Computes operand
  | .invocation info none method arguments => info.producesValue = method.returnsValue
      ∧ callable method ∧ AllCompute arguments
  | _ => False

/-- Operands that compute with scalars and arrays. -/
def AllCompute : List Operation -> Prop
  | [] => True
  | head :: tail => (head.producesValue = true ∧ Computes head) ∧ AllCompute tail

/-- A variable of the method itself or an element of an array. -/
def IsTarget : Operation -> Prop
  | .parameter _ symbol => symbol.ordinal < parameterCount
  | .localVariable _ _ => True
  | .element _ array indices =>
    arrays ∧ (array.producesValue = true ∧ Computes array) ∧ AllCompute indices
  | .parenthesized _ operand => IsTarget operand
  | _ => False

end

def ComputesOperand (operation : Operation) : Prop :=
  operation.producesValue = true ∧ operation.Computes arrays parameterCount callable

mutual

def ComputesStatement : Operation -> Prop
  | .block _ operations => AllComputeStatements operations
  | .declaration _ _ none => True
  | .declaration _ _ (some initializer) =>
    initializer.ComputesOperand arrays parameterCount callable
  | .returnStatement _ none => True
  | .returnStatement _ (some value) => value.ComputesOperand arrays parameterCount callable
  | .whileLoop _ condition body =>
    condition.ComputesOperand arrays parameterCount callable ∧ ComputesStatement body
  | .conditional info condition whenTrue none => info.type = none
      ∧ condition.ComputesOperand arrays parameterCount callable ∧ ComputesStatement whenTrue
  | .conditional info condition whenTrue (some whenFalse) =>
    if info.type.isSome then
      (conditional info condition whenTrue (some whenFalse)).Computes arrays parameterCount
        callable
    else condition.ComputesOperand arrays parameterCount callable
      ∧ ComputesStatement whenTrue ∧ ComputesStatement whenFalse
  | .expressionStatement _ expression => expression.Computes arrays parameterCount callable
  | other => other.Computes arrays parameterCount callable

def AllComputeStatements : List Operation -> Prop
  | [] => True
  | head :: tail => ComputesStatement head ∧ AllComputeStatements tail

end

end

section

variable {arrays : Prop} {parameterCount : Nat} {callable : MethodSymbol -> Prop}
  {operation : Operation}

theorem computes_of_expression (isExpression : Compile.isStatement operation = false)
    (computes : operation.ComputesStatement arrays parameterCount callable) :
    operation.Computes arrays parameterCount callable := by
  cases operation with
  | block | declaration | expressionStatement | returnStatement | whileLoop => cases isExpression
  | conditional info _ _ whenFalse =>
    have typed : info.type.isSome = true := Option.isNone_eq_false_iff.mp isExpression
    cases whenFalse with
    | none => cases typed.symm.trans (congrArg Option.isSome computes.1)
    | some => simpa only [ComputesStatement, typed, if_true] using computes
  | _ => exact computes

theorem IsVariable.isTarget (target : Operation) (isVariable : target.IsVariable parameterCount) :
    target.IsTarget arrays parameterCount callable := by
  fun_induction Operation.IsVariable parameterCount target with
  | case1 | case2 => exact isVariable
  | case3 _ _ ih => exact ih isVariable
  | case4 => exact isVariable.elim

mutual

theorem IsScalar.computes : ∀ operation : Operation,
    operation.IsScalar parameterCount callable -> operation.Computes arrays parameterCount callable
  | .literal _, scalar => scalar
  | .parameter _ _, scalar => scalar
  | .localVariable _ _, scalar => scalar
  | .binary _ _ left right, ⟨typed, ⟨leftTyped, onLeft⟩, rightTyped, onRight⟩ =>
    ⟨typed, ⟨leftTyped, IsScalar.computes left onLeft⟩, rightTyped, IsScalar.computes right onRight⟩
  | .unary _ _ operand, ⟨typed, operandTyped, inner⟩ =>
    ⟨typed, operandTyped, IsScalar.computes operand inner⟩
  | .conversion _ operand, ⟨typed, operandTyped, inner⟩ =>
    ⟨typed, operandTyped, IsScalar.computes operand inner⟩
  | .conditional _ condition whenTrue (some whenFalse),
      ⟨typed, ⟨testTyped, test⟩, ⟨trueTyped, onTrue⟩, falseTyped, onFalse⟩ =>
      ⟨typed, ⟨testTyped, IsScalar.computes condition test⟩,
        ⟨trueTyped, IsScalar.computes whenTrue onTrue⟩, falseTyped,
        IsScalar.computes whenFalse onFalse⟩
  | .assignment _ target value, ⟨typed, isVariable, valueTyped, inner⟩ =>
    ⟨typed, IsVariable.isTarget target isVariable, valueTyped, IsScalar.computes value inner⟩
  | .compoundAssignment _ _ target value, ⟨typed, isVariable, valueTyped, inner⟩ =>
    ⟨typed, IsVariable.isTarget target isVariable, valueTyped, IsScalar.computes value inner⟩
  | .parenthesized _ operand, ⟨typed, inner⟩ => ⟨typed, IsScalar.computes operand inner⟩
  | .invocation _ none _ arguments, ⟨typed, isCallable, areScalar⟩ =>
    ⟨typed, isCallable, AreScalar.allCompute arguments areScalar⟩

theorem AreScalar.allCompute : ∀ operations : List Operation,
    AreScalar parameterCount callable operations ->
      AllCompute arrays parameterCount callable operations
  | [], _ => trivial
  | head :: tail, ⟨⟨typed, scalar⟩, later⟩ =>
    ⟨⟨typed, IsScalar.computes head scalar⟩, AreScalar.allCompute tail later⟩

end

theorem IsScalarOperand.computes (scalar : operation.IsScalarOperand parameterCount callable) :
    operation.ComputesOperand arrays parameterCount callable :=
  ⟨scalar.1, IsScalar.computes operation scalar.2⟩

mutual

theorem IsScalarStatement.computes (operation : Operation)
    (scalar : operation.IsScalarStatement parameterCount callable) :
    operation.ComputesStatement arrays parameterCount callable := by
  cases operation with
  | block _ operations => exact AreScalarStatements.allCompute operations scalar
  | declaration _ _ initializer =>
    cases initializer with
    | none => trivial
    | some => exact IsScalarOperand.computes scalar
  | returnStatement _ value =>
    cases value with
    | none => trivial
    | some => exact IsScalarOperand.computes scalar
  | whileLoop _ _ body => exact ⟨scalar.1.computes, IsScalarStatement.computes body scalar.2⟩
  | conditional _ _ whenTrue whenFalse =>
    cases whenFalse with
    | none =>
      obtain ⟨untyped, test, onTrue⟩ := scalar
      exact ⟨untyped, test.computes, IsScalarStatement.computes whenTrue onTrue⟩
    | some whenFalse =>
      rw [ComputesStatement]
      rw [IsScalarStatement] at scalar
      split at scalar
      · rename_i typed
        rw [if_pos typed]
        exact IsScalar.computes _ scalar
      · rename_i untyped
        rw [if_neg untyped]
        exact ⟨scalar.1.computes, IsScalarStatement.computes whenTrue scalar.2.1,
          IsScalarStatement.computes whenFalse scalar.2.2⟩
  | expressionStatement _ expression => exact IsScalar.computes expression scalar
  | _ => exact IsScalar.computes _ scalar

theorem AreScalarStatements.allCompute : ∀ operations : List Operation,
    AreScalarStatements parameterCount callable operations ->
      AllComputeStatements arrays parameterCount callable operations
  | [], _ => trivial
  | head :: tail, ⟨here, later⟩ =>
    ⟨IsScalarStatement.computes head here, AreScalarStatements.allCompute tail later⟩

end

end

end Operation

/-! ## Scalar trees -/

namespace Perform

variable {α β : Type}

theorem onStore_bind (action : Evaluate α) (next : α -> Evaluate β) :
    onStore (action >>= next) = onStore action >>= fun value => onStore (next value) := by
  funext world
  cases outcome : action world.store <;> simp only [onStore, bind, EStateM.bind, outcome]

theorem onStore_ite [Decidable condition] (first second : Evaluate α) :
    onStore (if condition then first else second)
      = if condition then onStore first else onStore second := apply_ite ..

theorem onStore_loop (condition : Evaluate Bool) (body : Evaluate Flow) (rounds : Nat) :
    onStore (Evaluate.loop condition body rounds)
      = loop (onStore condition) (onStore body) rounds := by
  induction rounds with
  | zero => rfl
  | succ _ ih =>
    rw [Evaluate.loop, onStore_bind]
    refine congrArg _ (funext fun truth => ?_)
    cases truth with
    | false => rfl
    | true =>
      simp only [if_true, onStore_bind]
      refine congrArg _ (funext fun flow => ?_)
      cases flow with
      | next => exact ih
      | leave => rfl

end Perform

open Perform

section

variable {parameterCount : Nat} {callable : MethodSymbol -> Prop}

namespace Evaluator

variable (evaluator : Evaluator) (order : UpdateOrder)

theorem exists_variable (target : Operation) (isVariable : target.IsVariable parameterCount) :
    ∃ place, target.variable? = some place
      ∧ (∀ operand, evaluator.assign order operand target = (do
        let result ← operand
        .write place result
        return result))
      ∧ ∀ operator operand,
        evaluator.update order operator operand target = updateVariable place operator operand := by
  fun_induction Operation.IsVariable parameterCount target with
  | case1 | case2 => exact ⟨_, rfl, fun _ => rfl, fun _ _ => rfl⟩
  | case3 _ _ ih => exact ih isVariable
  | case4 => exact isVariable.elim

mutual

theorem perform_of_isScalar : ∀ operation : Operation,
    operation.IsScalar parameterCount callable ->
      evaluator.perform order operation = .onStore (evaluator.value operation)
  | .literal _, _ => rfl
  | .parameter _ _, _ => rfl
  | .localVariable _ _, _ => rfl
  | .binary _ operator left right, scalar => by
      rw [perform, value, perform_of_isScalar left scalar.2.1.2,
        perform_of_isScalar right scalar.2.2.2]
      simp only [onStore_bind]
      rfl
  | .unary _ operator operand, scalar => by
      rw [perform, value, perform_of_isScalar operand scalar.2.2, onStore_bind]
      rfl
  | .conversion info operand, scalar => by
      rw [perform, value, perform_of_isScalar operand scalar.2.2, onStore_bind]
      rfl
  | .conditional _ condition whenTrue (some whenFalse), scalar => by
      rw [perform, value, perform_of_isScalar condition scalar.2.1.2,
        perform_of_isScalar whenTrue scalar.2.2.1.2, perform_of_isScalar whenFalse scalar.2.2.2.2]
      simp only [onStore_bind, onStore_ite]
      rfl
  | .assignment _ target operand, scalar => by
      obtain ⟨place, isPlace, assigns, _⟩ := exists_variable evaluator order target scalar.2.1
      rw [perform, assigns, value, perform_of_isScalar operand scalar.2.2.2, onStore_bind, isPlace]
      rfl
  | .compoundAssignment _ operator target operand, scalar => by
      obtain ⟨_, isPlace, _, updates⟩ := exists_variable evaluator order target scalar.2.1
      rw [perform, updates, updateVariable, value, perform_of_isScalar operand scalar.2.2.2,
        isPlace]
      simp only [onStore_bind]
      rfl
  | .parenthesized _ operand, scalar => by
      rw [perform, value, perform_of_isScalar operand scalar.2]
  | .invocation _ none method arguments, scalar => by
      rw [perform, value, performAll_of_areScalar arguments scalar.2.2, onStore_bind]
      rfl

theorem performAll_of_areScalar : ∀ operations : List Operation,
    Operation.AreScalar parameterCount callable operations ->
      evaluator.performAll order operations = .onStore (evaluator.values operations)
  | [], _ => rfl
  | head :: tail, scalar => by
      rw [performAll, values, perform_of_isScalar head scalar.1.2,
        performAll_of_areScalar tail scalar.2]
      simp only [onStore_bind]
      rfl

end

mutual

theorem act_of_isScalar (operation : Operation)
    (scalar : operation.IsScalarStatement parameterCount callable) :
    evaluator.act order operation = .onStore (evaluator.statement operation) := by
  cases operation with
  | block _ operations => rw [act, statement, actAll_of_areScalar operations scalar]
  | declaration _ _ initializer =>
    cases initializer with
    | none =>
      rw [act, statement, performStart, onStore_bind]
      rfl
    | some =>
      rw [act, statement, performStart, start, perform_of_isScalar evaluator order _ scalar.2,
        onStore_bind]
      rfl
  | returnStatement _ value =>
    cases value with
    | none =>
      rw [act, statement, onStore_ite]
      rfl
    | some operand =>
      rw [act, statement, perform_of_isScalar evaluator order operand scalar.2, onStore_bind]
      rfl
  | whileLoop _ condition body =>
    rw [act, statement, perform_of_isScalar evaluator order condition scalar.1.2,
      act_of_isScalar body scalar.2, onStore_loop, onStore_bind]
    rfl
  | conditional _ condition whenTrue whenFalse =>
    cases whenFalse with
    | none =>
      obtain ⟨untyped, test, onTrue⟩ := scalar
      rw [act, statement, untyped, perform_of_isScalar evaluator order condition test.2,
        act_of_isScalar whenTrue onTrue]
      simp only [Option.isSome_none, Bool.false_eq_true, if_false, onStore_bind, onStore_ite]
      rfl
    | some whenFalse =>
      rw [Operation.IsScalarStatement] at scalar
      split at scalar
      · rename_i typed
        rw [act, statement, if_pos typed, if_pos typed,
          perform_of_isScalar evaluator order _ scalar, onStore_bind]
        rfl
      · rename_i untyped
        rw [act, statement, if_neg untyped, if_neg untyped, actElse, alternative,
          perform_of_isScalar evaluator order condition scalar.1.2,
          act_of_isScalar whenTrue scalar.2.1, act_of_isScalar whenFalse scalar.2.2]
        simp only [onStore_bind, onStore_ite]
        rfl
  | expressionStatement _ expression =>
    rw [act, statement, perform_of_isScalar evaluator order expression scalar, onStore_bind]
    rfl
  | _ =>
    rw [act_of_expression evaluator order rfl, statement_of_expression evaluator rfl,
      perform_of_isScalar evaluator order _ scalar, onStore_bind]
    rfl

theorem actAll_of_areScalar : ∀ operations : List Operation,
    Operation.AreScalarStatements parameterCount callable operations ->
      evaluator.actAll order operations = .onStore (evaluator.statements operations)
  | [], _ => rfl
  | head :: tail, scalar => by
      rw [actAll, statements, act_of_isScalar head scalar.1, onStore_bind]
      refine congrArg _ (funext fun flow => ?_)
      cases flow with
      | next => exact actAll_of_areScalar tail scalar.2
      | leave => rfl

end

theorem performBody_of_isScalar (scalar : operation.IsScalarStatement parameterCount callable) :
    evaluator.performBody order operation = .onStore (evaluator.body operation) := by
  rw [performBody, body]
  by_cases isStatement : Compile.isStatement operation = true
  · rw [if_pos isStatement, if_pos isStatement, act_of_isScalar evaluator order operation scalar,
      onStore_bind]
    refine congrArg _ (funext fun flow => ?_)
    cases flow <;> rfl
  · have isExpression := Bool.eq_false_iff.mpr isStatement
    rw [if_neg isStatement, if_neg isStatement, perform_of_isScalar evaluator order operation
      (Operation.isScalar_of_expression isExpression scalar), onStore_bind]
    rfl

end Evaluator

end

end OpMachine
