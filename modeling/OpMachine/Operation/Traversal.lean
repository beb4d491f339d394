import OpMachine.Operation.Basic

namespace OpMachine

/-!
Shapes, children and descendants of operation trees.

The children of an operation are listed in evaluation order.  Its descendants
are listed in pre-order: every operation stands before its own children, and
the whole subtree of an earlier child stands before a later child.
-/

def HoleArgument.operations : HoleArgument -> List Operation
  | .alignment width => [width]
  | .format _ => []

/-- The operations a part holds: the value of a hole, then its alignments. -/
def InterpolationPart.operations : InterpolationPart -> List Operation
  | .text _ => []
  | .hole value arguments => value :: arguments.flatMap HoleArgument.operations

namespace Operation

def shapeName : Operation -> String
  | .literal info =>
      "Literal(" ++ ((info.literal.map Literal.kindName).getD "none") ++ ")"
  | .parameter _ _ => "ParameterReference"
  | .localVariable _ _ => "LocalReference"
  | .implicitReceiver _ => "ImplicitReceiver"
  | .member _ .field _ _ => "FieldReference"
  | .member _ .property _ _ => "PropertyReference"
  | .element _ _ _ => "ArrayElementReference"
  | .binary _ _ _ _ => "Binary"
  | .unary _ _ _ => "Unary"
  | .conversion _ _ => "Conversion"
  | .conditional _ _ _ _ => "Conditional"
  | .invocation _ _ _ _ => "Invocation"
  | .anonymousFunction _ _ _ => "AnonymousFunction"
  | .delegateCreation _ _ => "DelegateCreation"
  | .interpolation _ _ => "InterpolatedString"
  | .arrayCreation _ _ _ => "ArrayCreation"
  | .objectCreation _ _ _ _ => "ObjectCreation"
  | .assignment _ _ _ => "SimpleAssignment"
  | .compoundAssignment _ _ _ _ => "CompoundAssignment"
  | .declaration _ _ _ => "VariableDeclaration"
  | .block _ _ => "Block"
  | .expressionStatement _ _ => "ExpressionStatement"
  | .parenthesized _ _ => "Parenthesized"
  | .returnStatement _ _ => "Return"
  | .whileLoop _ _ _ => "WhileLoop"
  | .unsupported _ shape _ => shape

/-- The direct children, in evaluation order. -/
def children : Operation -> List Operation
  | .literal _ => []
  | .parameter _ _ => []
  | .localVariable _ _ => []
  | .implicitReceiver _ => []
  | .member _ _ receiver _ => receiver.toList
  | .element _ array indices => array :: indices
  | .binary _ _ left right => [left, right]
  | .unary _ _ operand => [operand]
  | .conversion _ operand => [operand]
  | .conditional _ condition whenTrue whenFalse => condition :: whenTrue :: whenFalse.toList
  | .invocation _ receiver _ arguments => receiver.toList ++ arguments
  | .anonymousFunction _ _ body => [body]
  | .delegateCreation _ target => [target]
  | .interpolation _ parts => parts.flatMap InterpolationPart.operations
  | .arrayCreation _ sizes initializer => sizes ++ initializer.getD []
  | .objectCreation _ _ arguments initializer => arguments ++ initializer
  | .assignment _ target value => [target, value]
  | .compoundAssignment _ _ target value => [target, value]
  | .declaration _ _ initializer => initializer.toList
  | .block _ statements => statements
  | .expressionStatement _ expression => [expression]
  | .parenthesized _ operand => [operand]
  | .returnStatement _ value => value.toList
  | .whileLoop _ condition body => [condition, body]
  | .unsupported _ _ parts => parts

noncomputable def totalSize (operations : List Operation) : Nat :=
  operations.foldr (fun operation total => sizeOf operation + total) 0

@[simp]
theorem totalSize_nil : totalSize [] = 0 := rfl

@[simp]
theorem totalSize_cons (head : Operation) (tail : List Operation) :
    totalSize (head :: tail) = sizeOf head + totalSize tail := rfl

@[simp]
theorem totalSize_append (front back : List Operation) :
    totalSize (front ++ back) = totalSize front + totalSize back := by
  induction front with
  | nil => simp
  | cons head tail ih => simp only [List.cons_append, totalSize_cons, ih, Nat.add_assoc]

theorem totalSize_le (operations : List Operation) :
    totalSize operations ≤ sizeOf operations := by
  induction operations with
  | nil => simp
  | cons head tail ih =>
      simp only [totalSize_cons, List.cons.sizeOf_spec]
      omega

theorem totalSize_toList_le (operation : Option Operation) :
    totalSize operation.toList ≤ sizeOf operation := by
  cases operation with
  | none => simp
  | some operation =>
      simp only [Option.toList_some, totalSize_cons, totalSize_nil, Option.some.sizeOf_spec]
      omega

private theorem totalSize_holeArguments_le (arguments : List HoleArgument) :
    totalSize (arguments.flatMap HoleArgument.operations) ≤ sizeOf arguments := by
  induction arguments with
  | nil => simp
  | cons head tail ih =>
      cases head <;>
        simp only [List.flatMap_cons, HoleArgument.operations, totalSize_append,
          totalSize_cons, totalSize_nil, List.cons.sizeOf_spec,
          HoleArgument.alignment.sizeOf_spec, HoleArgument.format.sizeOf_spec] <;>
        omega

private theorem totalSize_parts_le (parts : List InterpolationPart) :
    totalSize (parts.flatMap InterpolationPart.operations) ≤ sizeOf parts := by
  induction parts with
  | nil => simp
  | cons head tail ih =>
      cases head with
      | text content =>
          simp only [List.flatMap_cons, InterpolationPart.operations, totalSize_append,
            totalSize_nil, List.cons.sizeOf_spec, InterpolationPart.text.sizeOf_spec]
          omega
      | hole value arguments =>
          have bound := totalSize_holeArguments_le arguments
          simp only [List.flatMap_cons, InterpolationPart.operations, totalSize_append,
            totalSize_cons, List.cons.sizeOf_spec, InterpolationPart.hole.sizeOf_spec]
          omega

/-- The children of an operation are smaller than the operation, all together. -/
theorem totalSize_children_lt (operation : Operation) :
    totalSize operation.children < sizeOf operation := by
  cases operation with
  | member _ _ part _ | declaration _ _ part | returnStatement _ part =>
      have bound := totalSize_toList_le part
      simp only [children, member.sizeOf_spec, declaration.sizeOf_spec, returnStatement.sizeOf_spec]
      omega
  | element info array indices =>
      have bound := totalSize_le indices
      simp only [children, totalSize_cons, element.sizeOf_spec]
      omega
  | conditional info condition whenTrue whenFalse =>
      have bound := totalSize_toList_le whenFalse
      simp only [children, totalSize_cons, conditional.sizeOf_spec]
      omega
  | invocation info receiver method arguments =>
      have receiverBound := totalSize_toList_le receiver
      have argumentBound := totalSize_le arguments
      simp only [children, totalSize_append, invocation.sizeOf_spec]
      omega
  | interpolation info parts =>
      have bound := totalSize_parts_le parts
      simp only [children, interpolation.sizeOf_spec]
      omega
  | arrayCreation info sizes initializer =>
      have sizeBound := totalSize_le sizes
      cases initializer with
      | none =>
          simp only [children, Option.getD_none, totalSize_append, totalSize_nil,
            arrayCreation.sizeOf_spec]
          omega
      | some items =>
          have itemBound := totalSize_le items
          simp only [children, Option.getD_some, totalSize_append,
            arrayCreation.sizeOf_spec, Option.some.sizeOf_spec]
          omega
  | objectCreation info constructor arguments initializer =>
      have argumentBound := totalSize_le arguments
      have initializerBound := totalSize_le initializer
      simp only [children, totalSize_append, objectCreation.sizeOf_spec]
      omega
  | block _ parts | unsupported _ _ parts =>
      have bound := totalSize_le parts
      simp only [children, block.sizeOf_spec, unsupported.sizeOf_spec]
      omega
  | _ =>
      simp only [children, totalSize_cons, totalSize_nil, literal.sizeOf_spec,
        parameter.sizeOf_spec, localVariable.sizeOf_spec, implicitReceiver.sizeOf_spec,
        binary.sizeOf_spec, unary.sizeOf_spec, conversion.sizeOf_spec,
        anonymousFunction.sizeOf_spec, delegateCreation.sizeOf_spec,
        assignment.sizeOf_spec, compoundAssignment.sizeOf_spec,
        expressionStatement.sizeOf_spec, parenthesized.sizeOf_spec, whileLoop.sizeOf_spec]
      omega

/-- The operations met from a worklist, each one before its own children. -/
def visit : List Operation -> List Operation
  | [] => []
  | operation :: pending => operation :: visit (operation.children ++ pending)
termination_by pending => totalSize pending
decreasing_by
  have smaller := totalSize_children_lt operation
  simp only [totalSize_append, totalSize_cons]
  omega

/-- All descendants in pre-order, without the operation itself. -/
def descendants (operation : Operation) : List Operation :=
  visit operation.children

end Operation
end OpMachine
