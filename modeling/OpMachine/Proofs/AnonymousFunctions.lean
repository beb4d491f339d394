import OpMachine.Operation.Functions

namespace OpMachine

/-!
# Anonymous functions of a tree

The list of the anonymous functions of a tree is complete: it has every such
function among the descendants, at any depth.  It is in post-order, so whatever
is written inside a function stands before it.
-/

namespace Operation

def ownFunction : Operation -> List FunctionNode
  | .anonymousFunction _ symbol body => [⟨symbol, body⟩]
  | _ => []

/-! ## The list of a tree from the lists of its children -/

mutual

private theorem toList_functionsAfter (found : Array FunctionNode) (operation : Operation) :
    (functionsAfter found operation).toList
      = found.toList ++ (operation.children.flatMap functions ++ operation.ownFunction) := by
  cases operation with
  | arrayCreation _ sizes items =>
    cases items with
    | none | some => simp [functionsAfter, children, ownFunction, toList_functionsAfterList]
  | _ =>
    simp [functionsAfter, children, ownFunction, functions, toList_functionsAfter,
      toList_functionsAfterOption, toList_functionsAfterList, toList_functionsAfterParts]

private theorem toList_functionsAfterOption (found : Array FunctionNode) :
    ∀ operation : Option Operation, (functionsAfterOption found operation).toList
      = found.toList ++ operation.toList.flatMap functions
  | none => by simp [functionsAfterOption]
  | some operation => by
      simp [functionsAfterOption, toList_functionsAfter _ operation, functions]

private theorem toList_functionsAfterList (found : Array FunctionNode) :
    ∀ operations : List Operation, (functionsAfterList found operations).toList
      = found.toList ++ operations.flatMap functions
  | [] => by simp [functionsAfterList]
  | operation :: rest => by
      simp [functionsAfterList, toList_functionsAfterList _ rest, toList_functionsAfter _ operation,
        functions]

private theorem toList_functionsAfterParts (found : Array FunctionNode) :
    ∀ parts : List InterpolationPart, (functionsAfterParts found parts).toList
      = found.toList ++ (parts.flatMap InterpolationPart.operations).flatMap functions
  | [] => by simp [functionsAfterParts]
  | .text _ :: rest => by
      simp [functionsAfterParts, toList_functionsAfterParts _ rest, InterpolationPart.operations]
  | .hole value arguments :: rest => by
      simp [functionsAfterParts, toList_functionsAfterParts _ rest,
        toList_functionsAfterHole _ arguments, toList_functionsAfter _ value,
        InterpolationPart.operations, functions]

private theorem toList_functionsAfterHole (found : Array FunctionNode) :
    ∀ arguments : List HoleArgument, (functionsAfterHole found arguments).toList
      = found.toList ++ (arguments.flatMap HoleArgument.operations).flatMap functions
  | [] => by simp [functionsAfterHole]
  | .alignment width :: rest => by
      simp [functionsAfterHole, toList_functionsAfterHole _ rest, toList_functionsAfter _ width,
        HoleArgument.operations, functions]
  | .format _ :: rest => by
      simp [functionsAfterHole, toList_functionsAfterHole _ rest, HoleArgument.operations]

end

/-- The functions of an operation are those of its children, and then itself if
it is one. -/
theorem functions_eq (operation : Operation) :
    operation.functions = operation.children.flatMap functions ++ operation.ownFunction := by
  rw [functions, toList_functionsAfter]
  rfl

variable {operation : Operation} {node : FunctionNode}

theorem functions_subset_of_mem_children (member : child ∈ operation.children) :
    child.functions ⊆ operation.functions := by
  intro node isInside
  rw [functions_eq operation]
  exact List.mem_append_left _ (List.mem_flatMap.mpr ⟨child, member, isInside⟩)

/-! ## Completeness -/

theorem mem_ownFunction : node ∈ operation.ownFunction
      ↔ ∃ info, operation = .anonymousFunction info node.symbol node.body := by
  cases operation with
  | anonymousFunction info =>
    constructor
    · intro member
      cases List.mem_singleton.mp member
      exact ⟨info, rfl⟩
    · rintro ⟨_, same⟩
      cases same
      exact .head _
  | _ => simp [ownFunction]

theorem mem_flatMap_functions {node : FunctionNode} :
    node ∈ pending.flatMap functions
      ↔ ∃ info, anonymousFunction info node.symbol node.body ∈ visit pending := by
  fun_induction visit pending with
  | case1 => simp
  | case2 operation _ ih =>
    rw [List.flatMap_cons, functions_eq operation, List.mem_append, List.mem_append,
      mem_ownFunction]
    rw [List.flatMap_append, List.mem_append] at ih
    constructor
    · rintro ((inChildren | ⟨info, isNode⟩) | later)
      · obtain ⟨info, member⟩ := ih.mp (.inl inChildren)
        exact ⟨info, .tail _ member⟩
      · exact ⟨info, isNode ▸ .head _⟩
      · obtain ⟨info, member⟩ := ih.mp (.inr later)
        exact ⟨info, .tail _ member⟩
    · rintro ⟨info, member⟩
      rcases List.mem_cons.mp member with isNode | below
      · exact .inl (.inr ⟨info, isNode.symm⟩)
      · rcases ih.mpr ⟨info, below⟩ with inChildren | later
        · exact .inl (.inl inChildren)
        · exact .inr later

/-- The list has the functions of a tree at any depth, and no others. -/
theorem mem_functions : node ∈ operation.functions ↔ ∃ info,
      anonymousFunction info node.symbol node.body ∈ operation :: operation.descendants := by
  have all := @mem_flatMap_functions [operation] node
  rw [visit, List.append_nil, ← descendants, List.flatMap_singleton] at all
  exact all

end Operation

/-! ## Order -/

/-- The functions inside each function stand before it. -/
def FunctionNode.InnerFirst (nodes : List FunctionNode) : Prop :=
  ∀ front node back, nodes = front ++ node :: back -> node.body.functions ⊆ front

namespace FunctionNode.InnerFirst

variable {first second : List FunctionNode} {node : FunctionNode}

theorem nil : InnerFirst [] := by
  intro front node back isSplit
  cases front <;> cases isSplit

theorem append (inFirst : InnerFirst first) (inSecond : InnerFirst second) :
    InnerFirst (first ++ second) := by
  intro front node back isSplit
  rcases List.append_eq_append_iff.mp isSplit with ⟨more, isFront, isSecond⟩ | ⟨more, isFirst, isRest⟩
  · rw [isFront]
    exact fun inner member => List.mem_append_right _ (inSecond more node back isSecond member)
  · cases more with
    | nil =>
      exact fun inner member => absurd (inSecond [] node back isRest.symm member) List.not_mem_nil
    | cons _ rest =>
      cases isRest
      exact inFirst front node rest isFirst

theorem concat (inFirst : InnerFirst first) (inner : node.body.functions ⊆ first) :
    InnerFirst (first ++ [node]) := by
  intro front other back isSplit
  rcases List.append_eq_append_iff.mp isSplit with ⟨more, isFront, isLast⟩ | ⟨more, isFirst, isRest⟩
  · cases more with
    | nil =>
      cases isLast
      rw [isFront, List.append_nil]
      exact inner
    | cons _ rest => cases rest <;> cases isLast
  · cases more with
    | nil =>
      cases isRest
      rw [List.append_nil] at isFirst
      exact isFirst ▸ inner
    | cons _ rest =>
      cases isRest
      exact inFirst front other rest isFirst

end FunctionNode.InnerFirst

namespace Operation

variable {operation : Operation} {operations : List Operation}

theorem sizeOf_le_totalSize
    (member : operation ∈ operations) : sizeOf operation ≤ totalSize operations := by
  induction operations with
  | nil => exact nomatch member
  | cons _ _ ih =>
    rcases List.mem_cons.mp member with rfl | later
    · exact Nat.le_add_right _ _
    · exact Nat.le_trans (ih later) (Nat.le_add_left _ _)

theorem innerFirst_flatMap (each : ∀ operation, operation ∈ operations ->
      FunctionNode.InnerFirst operation.functions) :
    FunctionNode.InnerFirst (operations.flatMap functions) := by
  induction operations with
  | nil => exact .nil
  | cons head _ ih =>
    exact (each head (.head _)).append (ih fun operation member => each operation (.tail _ member))

/-- What is written inside a function of a tree stands before it in the list. -/
theorem innerFirst_functions (operation : Operation) :
    FunctionNode.InnerFirst operation.functions := by
  have inChildren : FunctionNode.InnerFirst (operation.children.flatMap functions) :=
    innerFirst_flatMap fun child member => innerFirst_functions child
  rw [functions_eq]
  cases operation with
  | anonymousFunction _ _ body =>
    refine inChildren.concat fun inner member => ?_
    exact List.mem_flatMap.mpr ⟨body, List.mem_singleton.mpr rfl, member⟩
  | _ => exact inChildren.append .nil
termination_by sizeOf operation
decreasing_by
  exact Nat.lt_of_le_of_lt (sizeOf_le_totalSize member) (totalSize_children_lt operation)

end Operation
end OpMachine
