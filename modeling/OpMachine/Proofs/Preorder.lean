import OpMachine.Operation.Traversal

namespace OpMachine.Operation

/-!
# Descendants in pre-order

An occurrence of an operation in a tree is a path, which numbers a child at each
step.  In the lexicographic order of paths an operation stands before its
children, and the subtree of a child before that of a later one.  The
descendants of an operation are its occurrences in this order.
-/

variable {operation : Operation}

theorem sizeOf_lt_of_mem_children {child : Operation} (member : child ∈ operation.children) :
    sizeOf child < sizeOf operation := by
  have whole := totalSize_children_lt operation
  obtain ⟨_, _, split⟩ := List.append_of_mem member
  rw [split, totalSize_append, totalSize_cons] at whole
  omega

theorem visit_append (front back : List Operation) :
    visit (front ++ back) = visit front ++ visit back := by
  fun_induction visit front with
  | case1 => rfl
  | case2 _ _ ih =>
    rw [List.cons_append, visit, ← List.append_assoc, ih]
    rfl

theorem visit_eq (pending : List Operation) :
    visit pending = pending.flatMap fun operation => operation :: operation.descendants := by
  induction pending with
  | nil => rw [visit, List.flatMap_nil]
  | cons operation _ ih =>
    rw [visit, visit_append, ih, List.flatMap_cons]
    rfl

/-! ## The loop -/

/-- A loop over a stack lists operations: the last one leaves the stack, and its
children are pushed from the last to the first. -/
inductive Lists : List Operation -> List Operation -> Prop
  | done : Lists [] []
  | turn {next : Operation} (rest : Lists (stack ++ next.children.reverse) listed) :
      Lists (stack ++ [next]) (next :: listed)

theorem lists_iff (pending listed : List Operation) :
    Lists pending.reverse listed ↔ listed = visit pending := by
  constructor
  · intro lists
    generalize isStack : pending.reverse = stack at lists
    induction lists generalizing pending with
    | done => rw [List.reverse_eq_nil_iff.mp isStack, visit]
    | turn _ ih =>
      obtain rfl := List.reverse_eq_append_iff.mp isStack
      rw [List.reverse_singleton, List.singleton_append, visit]
      exact congrArg _ (ih _ (by rw [List.reverse_append, List.reverse_reverse]))
  · rintro rfl
    fun_induction visit pending with
    | case1 => exact .done
    | case2 _ _ ih =>
      rw [List.reverse_append] at ih
      rw [List.reverse_cons]
      exact .turn ih

/-! ## Occurrences -/

/-- The operation at the end of a path. -/
def subtree? : Operation -> List Nat -> Option Operation
  | operation, [] => some operation
  | operation, index :: path => operation.children[index]?.bind (·.subtree? path)

/-- The descendants of an operation with the paths to them. -/
def occurrences (operation : Operation) : List (List Nat × Operation) :=
  (List.finRange operation.children.length).flatMap fun index =>
    (([], operation.children.get index) :: (operation.children.get index).occurrences).map
      fun (path, found) => (index :: path, found)
termination_by sizeOf operation
decreasing_by exact sizeOf_lt_of_mem_children (List.get_mem _ _)

theorem mem_occurrences {path : List Nat} {found : Operation} :
    (path, found) ∈ operation.occurrences ↔ path ≠ [] ∧ operation.subtree? path = some found := by
  induction path generalizing operation with rw [occurrences]
  | nil => simp
  | cons index path ih =>
    have here {child : Operation} : (path, found) ∈ ([], child) :: child.occurrences
        ↔ child.subtree? path = some found := by
      cases path with
      | nil => simp [ih, subtree?, eq_comm]
      | cons => simp [ih]
    rw [List.mem_flatMap, subtree?, Option.bind_eq_some_iff]
    constructor
    · rintro ⟨_, _, member⟩
      obtain ⟨⟨_, _⟩, member, same⟩ := List.mem_map.mp member
      cases same
      exact ⟨List.cons_ne_nil _ _, _, List.getElem?_eq_getElem _, here.mp member⟩
    · rintro ⟨_, child, isChild, isFound⟩
      obtain ⟨inside, rfl⟩ := List.getElem?_eq_some_iff.mp isChild
      exact ⟨⟨index, inside⟩, List.mem_finRange _, List.mem_map.mpr ⟨_, here.mpr isFound, rfl⟩⟩

theorem occurrences_ordered (operation : Operation) :
    (operation.occurrences.map Prod.fst).Pairwise (List.Lex (· < ·)) := by
  rw [List.pairwise_map]
  fun_induction occurrences operation with
  | case1 operation ih =>
    refine List.pairwise_flatMap.mpr ⟨fun index _ => List.pairwise_map.mpr ?_, ?_⟩
    · refine .imp .cons (.cons (fun later member => ?_) (ih index))
      obtain ⟨_, _, isPath⟩ := List.exists_cons_of_ne_nil (mem_occurrences.mp member).1
      rw [isPath]
      exact .nil
    · -- Paths through different children differ in their first number.
      refine (List.pairwise_lt_finRange _).imp fun before _ inFirst _ inSecond => ?_
      obtain ⟨_, _, rfl⟩ := List.mem_map.mp inFirst
      obtain ⟨_, _, rfl⟩ := List.mem_map.mp inSecond
      exact .rel before

theorem map_occurrences (operation : Operation) :
    operation.occurrences.map Prod.snd = operation.descendants := by
  fun_induction occurrences operation with
  | case1 operation ih =>
    have inOrder : (List.finRange operation.children.length).map operation.children.get
        = operation.children := by
      rw [List.finRange, List.map_ofFn]
      exact List.ofFn_getElem
    simp only [List.map_flatMap, List.map_map, Function.comp_def, List.map_cons, ih]
    rw [← List.flatMap_map operation.children.get fun child => child :: child.descendants, inOrder,
      ← visit_eq]
    rfl

/-- The descendants of an operation are its children, each followed by its own
descendants, as the loop lists them.  They are the operations at the nonempty
paths, in the order of the paths. -/
theorem descendants_preorder (operation : Operation) :
    operation.descendants = (operation.children.flatMap fun child => child :: child.descendants)
      ∧ (∀ listed, Lists operation.children.reverse listed ↔ listed = operation.descendants)
      ∧ operation.descendants = operation.occurrences.map Prod.snd
      ∧ (operation.occurrences.map Prod.fst).Pairwise (List.Lex (· < ·))
      ∧ ∀ path found, (path, found) ∈ operation.occurrences
        ↔ path ≠ [] ∧ operation.subtree? path = some found :=
  ⟨visit_eq operation.children, lists_iff operation.children, (map_occurrences operation).symm,
    occurrences_ordered operation, fun _ _ => mem_occurrences⟩

end OpMachine.Operation
