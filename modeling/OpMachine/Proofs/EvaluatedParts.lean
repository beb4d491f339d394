import OpMachine.Proofs.Overrides

namespace OpMachine

/-!
# The parts of a tree that are evaluated

The code of a body evaluates every part of its tree but two: the bodies of
anonymous functions, which have code of their own, and the receivers of static
members and of static calls, which are overlooked.  Whatever is evaluated stands
for something in the finished body: a parameter has a slot, a local was declared,
and a call has a target.
-/

/-! ## What is overlooked -/

/-- A member symbol that stands for a static property. -/
def Catalog.isStaticMember (catalog : Catalog) (symbol : MemberSymbol) : Bool :=
  match catalog.denoted? symbol.containingType with
  | none => false
  | some owner =>
    (catalog.findField? owner symbol.name).isNone
      && (catalog.findProperty? owner symbol.name).any (·.isStatic)

/-- What a catalog holds for the methods that a call may select, closed over the
type arguments of the call. -/
def Catalog.heldClosings (catalog : Catalog) (symbol : MethodSymbol) : List MethodEntry :=
  match catalog.denoted? symbol.containingType, symbol.typeArguments.mapM catalog.denoted? with
  | some owner, some arguments =>
    (methodsAlong (catalog.hierarchy owner)).filterMap fun method =>
      if method.name = symbol.name ∧ method.isStatic = symbol.isStatic then
        catalog.closedMethods[TypeHash.ofClosedMethod method.hash arguments]?
      else none
  | _, _ => []

/-- A call of a static method.  A closing is as static as the method it was made
from, so the second case is that of a method with the hash of another one. -/
def Catalog.isStaticCall (catalog : Catalog) (symbol : MethodSymbol) : Bool :=
  symbol.isStatic || (catalog.heldClosings symbol).any (·.isStatic)

namespace Operation

/-- The children that the code of an operation evaluates. -/
def evaluatedChildren (catalog : Catalog) : Operation -> List Operation
  | .anonymousFunction _ _ _ => []
  | .member _ _ receiver symbol => if catalog.isStaticMember symbol then [] else receiver.toList
  | .invocation _ receiver method arguments =>
    (if catalog.isStaticCall method then [] else receiver.toList) ++ arguments
  | operation => operation.children

theorem totalSize_evaluatedChildren_lt (catalog : Catalog) (operation : Operation) :
    totalSize (operation.evaluatedChildren catalog) < sizeOf operation := by
  refine Nat.lt_of_le_of_lt ?_ (totalSize_children_lt operation)
  cases operation with
  | anonymousFunction => exact Nat.zero_le _
  | member =>
    rw [evaluatedChildren]
    split
    · exact Nat.zero_le _
    · exact .refl
  | invocation =>
    rw [evaluatedChildren, children, totalSize_append, totalSize_append]
    split
    · exact Nat.add_le_add_right (Nat.zero_le _) _
    · exact .refl
  | _ => exact .refl

/-- The operations that code evaluates, each one before its own children. -/
def evaluated (catalog : Catalog) : List Operation -> List Operation
  | [] => []
  | operation :: pending =>
    operation :: evaluated catalog (operation.evaluatedChildren catalog ++ pending)
termination_by pending => totalSize pending
decreasing_by
  have smaller := totalSize_evaluatedChildren_lt catalog operation
  simp only [totalSize_append, totalSize_cons]
  omega

variable {catalog : Catalog}

@[simp]
theorem evaluated_nil : evaluated catalog [] = [] := by rw [evaluated]

theorem evaluated_append (front back : List Operation) :
    evaluated catalog (front ++ back) = evaluated catalog front ++ evaluated catalog back := by
  induction front using evaluated.induct catalog with
  | case1 => rw [evaluated_nil, List.nil_append, List.nil_append]
  | case2 _ _ ih =>
    rw [List.cons_append, evaluated, evaluated, List.cons_append, ← ih, List.append_assoc]

theorem evaluated_single (operation : Operation) : evaluated catalog [operation]
      = [operation] ++ evaluated catalog (operation.evaluatedChildren catalog) := by
  rw [evaluated, evaluated_append, evaluated_nil, List.append_nil, List.singleton_append]

/-- Something holds of every operation that code evaluates. -/
def Everywhere (catalog : Catalog) (Property : Operation -> Prop)
    (operations : List Operation) : Prop :=
  ∀ part, part ∈ evaluated catalog operations -> Property part

namespace Everywhere

variable {Property : Operation -> Prop} {operation : Operation} {rest : List Operation}

theorem nil : Everywhere catalog Property [] :=
  fun _ member => absurd (evaluated_nil ▸ member) List.not_mem_nil

theorem append (first : Everywhere catalog Property front)
    (second : Everywhere catalog Property back) : Everywhere catalog Property (front ++ back) := by
  intro part member
  rw [evaluated_append] at member
  rcases List.mem_append.mp member with inFront | inBack
  · exact first part inFront
  · exact second part inBack

theorem cons (first : Everywhere catalog Property [operation])
    (later : Everywhere catalog Property rest) : Everywhere catalog Property (operation :: rest) :=
  append first later

theorem uncons (both : Everywhere catalog Property (operation :: rest)) :
    Everywhere catalog Property [operation] ∧ Everywhere catalog Property rest := by
  have split : evaluated catalog (operation :: rest)
      = evaluated catalog [operation] ++ evaluated catalog rest := evaluated_append [operation] rest
  constructor
  · exact fun part member => both part (split ▸ List.mem_append_left _ member)
  · exact fun part member => both part (split ▸ List.mem_append_right _ member)

theorem single (here : Property operation)
    (below : Everywhere catalog Property (operation.evaluatedChildren catalog)) :
    Everywhere catalog Property [operation] := by
  intro part member
  rw [evaluated_single] at member
  rcases List.mem_cons.mp member with rfl | inside
  · exact here
  · exact below part inside

theorem except (otherwise : condition = false -> Everywhere catalog Property operations) :
    Everywhere catalog Property (if condition then [] else operations) := by
  cases condition with
  | true => exact nil
  | false => exact otherwise rfl

end Everywhere
end Operation

/-! ## Static members and calls -/

namespace Catalog

variable {before after : Catalog}

theorem HasBases.of_grows (hasBases : after.HasBases) (grows : before.Grows after) :
    before.HasBases where
  hash := fun hash type found => hasBases.hash hash type (grows.types ▸ found)
  types := fun hash type found => grows.types ▸ hasBases.types hash type (grows.types ▸ found)
  instances := fun hash type found =>
    grows.types ▸ hasBases.instances hash type (grows.instances hash type found)

/-- The bases of a type that declares something stay as they are. -/
theorem HasBases.hierarchy_of_grows (hasBases : after.HasBases) (grows : before.Grows after)
    {hash : TypeHash} (declares : before.declaring? hash = some declared) :
    after.hierarchy hash = before.hierarchy hash := by
  have earlier := hasBases.of_grows grows
  unfold hierarchy
  rw [grows.types]
  generalize before.types.size + 1 = allowed
  induction allowed generalizing hash declared with
  | zero => rfl
  | succ _ ih =>
    simp only [ancestry, declares, grows.declaring? declares]
    cases isBase : declared.1.base with
    | none => rfl
    | some base =>
      -- A base is registered, so it declares something too.
      have registered := earlier.links_registered ⟨declared, declares, isBase⟩
      simp only [ih (earlier.declaring_of_registered
        (Std.HashMap.getElem?_eq_some_getElem registered))]

end Catalog

open Catalog

namespace Compile

section

variable {catalog : Catalog} {before after : Body} {symbol : MemberSymbol} {access : MemberAccess}

theorem memberAccess_static
    (runs : memberAccess symbol before = .ok access after) (static : access.isStatic = true)
    (grows : after.workspace.catalog.Grows catalog) (hasBases : catalog.HasBases) :
    catalog.isStaticMember symbol = true := by
  obtain ⟨owner, resolved, ⟨_, _, rfl⟩ | ⟨isField, property, isProperty, rfl⟩⟩ :=
    memberAccess_cases runs
  · cases static
  · obtain ⟨denotes, resolving⟩ := resolve_ok resolved
    have isStatic : property.isStatic = true := by
      unfold MemberAccess.ofProperty at static
      split at static
      · assumption
      · cases static
    -- The type that has the property declares something.
    have declares : ∃ declared, after.workspace.catalog.declaring? owner = some declared := by
      cases declares : after.workspace.catalog.declaring? owner with
      | some declared => exact ⟨declared, rfl⟩
      | none =>
        simp only [findProperty?, hierarchy, ancestry, declares, List.findSome?_nil] at isProperty
        cases isProperty
    obtain ⟨_, declares⟩ := declares
    have same := hasBases.hierarchy_of_grows grows declares
    unfold findField? at isField
    unfold findProperty? at isProperty
    rw [← same] at isField isProperty
    rw [← (resolving.trans grows).toSameRegistered.denoted?] at denotes
    simp only [isStaticMember, denotes, findField?, findProperty?,
      isField, isProperty, Option.isNone_none, Option.any_some, isStatic, Bool.and_self]

variable {surroundings : Surroundings} {origin : Catalog} {depth : Nat} {finished : Body}

theorem Obtains.isStaticMember {usable : MemberAccess -> Bool}
    (obtained : Obtains surroundings origin depth finished (do
      let access ← memberAccess symbol
      if usable access then return access else unsupported refusal) access)
    (static : access.isStatic = true) (grows : finished.workspace.catalog.Grows catalog)
    (hasBases : catalog.HasBases) : catalog.isStaticMember symbol = true := by
  obtain ⟨_, _, _, grown, accessed⟩ := obtained.accessed
  exact memberAccess_static accessed static (grown.trans grows) hasBases

theorem isStaticCall_of_selectedAs {declared entry : MethodEntry}
    {symbol : MethodSymbol} (denotes : catalog.denoted? symbol.containingType = some owner)
    (along : declared ∈ methodsAlong (catalog.hierarchy owner))
    (named : declared.name = symbol.name) (isStatic : declared.isStatic = symbol.isStatic)
    (selected : declared.SelectedAs catalog symbol entry) (static : entry.isStatic = true) :
    catalog.isStaticCall symbol = true := by
  rw [isStaticCall, Bool.or_eq_true]
  cases selected with
  | plain => exact .inl (isStatic ▸ static)
  | closed denoted held =>
    refine .inr (List.any_eq_true.mpr ⟨entry, ?_, static⟩)
    rw [heldClosings, denotes, denoted]
    exact List.mem_filterMap.mpr ⟨declared, along, (if_pos ⟨named, isStatic⟩).trans held⟩

/-- A call that takes no receiver is static, or it was given none. -/
theorem Obtains.isStatic_or_none (obtained : Obtains surroundings origin depth finished
      (callTarget surroundings receiver.isSome method count) target)
    (without : takesReceiver target = false) (grows : finished.workspace.catalog.Grows catalog) :
    catalog.isStaticCall method = true ∨ receiver = none := by
  cases target with
  | host =>
    obtain ⟨owner, _, _, sound, found, selected, grown⟩ := obtained.hostMethod
    obtain ⟨declared, along, named, isStatic, isSelected⟩ :=
      hostMethod_selects sound selected (grown.trans grows)
    have denotes : catalog.denoted? method.containingType = some owner := by
      rw [grows.toSameRegistered.denoted?]
      exact found
    exact .inl (isStaticCall_of_selectedAs denotes along named isStatic isSelected
      ((Bool.not_eq_false' ..).mp without))
  | self | declared =>
    obtain ⟨_, _, _, _, runs, _⟩ := obtained.run
    obtain ⟨middle, _, isHost | ⟨_, isDeclared⟩⟩ := callTarget_ok runs
    · obtain ⟨_, _, _, _, impossible⟩ := isHost
      cases impossible
    · have absent := (declaredMethod_ok isDeclared).1
      exact .inr (Option.isNone_iff_eq_none.mp (Option.isSome_eq_false_iff.mp absent))

end

/-! ## What evaluated parts stand for -/

section

variable (surroundings : Surroundings) (origin : Catalog) (finished : Body)
  (Emitted : Instruction -> Prop)

/-- What an evaluated operation stands for in a finished body.  A call has a
target, and the instruction that calls it is emitted. -/
def Resolves : Operation -> Prop
  | .parameter _ symbol => ∃ slot, finished.slots.parameterSlot symbol = .ok slot
  | .localVariable _ symbol => ∃ slot, finished.slots.locals[symbol.id]? = some slot
  | .invocation _ receiver method arguments => ∃ depth target code,
    Obtains surroundings origin depth finished
        (callTarget surroundings receiver.isSome method arguments.length) target
      ∧ Calls finished.emitter.pool target arguments.length.toUInt8 code ∧ code.Every Emitted
  | _ => True

end

section

variable {surroundings : Surroundings} {origin catalog : Catalog} {finished : Body}
  {Emitted : Instruction -> Prop}

theorem everywhere_of_function? (isFunction : target.function? = some symbol) :
    Operation.Everywhere catalog (Resolves surroundings origin finished Emitted) [target] := by
  fun_induction Operation.function? target with
  | case1 => exact .single trivial .nil
  | case2 _ _ ih => exact .single trivial (ih isFunction)
  | case3 => cases isFunction

variable (grown : finished.workspace.catalog.Grows catalog) (hasBases : catalog.HasBases)

section

include grown hasBases

theorem SimplePlace.everywhere {depth : Nat}
    (found : SimplePlace surroundings origin finished depth target place) :
    Operation.Everywhere catalog (Resolves surroundings origin finished Emitted) [target] := by
  cases found with
  | parameter found | localVariable found => exact .single ⟨_, found⟩ .nil
  | staticMember found static =>
    refine .single trivial (.except fun onInstance => ?_)
    rw [found.isStaticMember static grown hasBases] at onInstance
    cases onInstance

end

include grown hasBases

/-- Whatever the code of a part of a tree evaluates stands for something.  The
induction is on the translation, with one case for each of its rules. -/
theorem Translates.everywhere {depth low : Nat} {task : Task} {code : MarkedCode}
    (translates : Translates surroundings origin finished depth low task code)
    (emitted : code.Every Emitted) :
    Operation.Everywhere catalog (Resolves surroundings origin finished Emitted)
      task.operations := by
  induction translates with
  | kept _ inner | droppedNothing _ _ inner | evaluated _ _ inner => exact inner emitted
  | dropped _ _ inner | statementBody _ _ inner | valueBody _ _ _ inner | effectBody _ _ inner =>
    exact inner emitted.left
  | assignment _ inner | compoundAssignment _ inner | parenthesized _ inner | block _ inner
  | expressionStatement _ inner => exact .single trivial (inner emitted)
  | unary _ _ inner | conversion _ _ _ _ inner | declaration _ _ inner | returnValue _ inner
  | returnDropped _ inner => exact .single trivial (inner emitted.left)
  | literal | defaultDeclaration | returnNothing => exact .single trivial .nil
  | parameter found | localVariable found => exact .single ⟨_, found⟩ .nil
  | staticMember found static =>
    refine .single trivial (.except fun onInstance => ?_)
    rw [found.isStaticMember static grown hasBases] at onInstance
    cases onInstance
  | instanceMember _ _ _ _ inner => exact .single trivial (.except fun _ => inner emitted.left)
  | element _ _ _ _ first second | binary _ _ _ first second =>
    exact .single trivial (.cons (first emitted.left) (second emitted.right.left))
  | conditional _ _ _ first second third | ifElse _ _ _ _ first second third =>
    have ⟨whenTrue, whenFalse⟩ := emitted.right.ofBranch
    exact .single trivial (.cons (first emitted.left) (.cons (second whenTrue) (third whenFalse)))
  | call found without _ _ calls first =>
    refine .single ⟨_, _, _, found, calls, emitted.right⟩
      (.append (.except fun onInstance => ?_) (first emitted.left))
    rcases found.isStatic_or_none without grown with isStatic | rfl
    · rw [isStatic] at onInstance
      cases onInstance
    · exact .nil
  | callOnReceiver found _ _ _ _ calls first second =>
    exact .single ⟨_, _, _, found, calls, emitted.right.right⟩
      (.append (.except fun _ => first emitted.left) (second emitted.right.left))
  | delegateCreation isFunction => exact .single trivial (everywhere_of_function? isFunction)
  | interpolation _ _ _ _ _ _ _ _ _ inner => exact .single trivial (inner emitted.right.left)
  | newArray _ _ _ first => exact .single trivial (.append (first emitted.left) .nil)
  | newVector _ _ _ _ inner => exact .single trivial (.append .nil (inner emitted.right.right))
  | newSizedVector _ _ _ _ first second | objectCreation _ _ _ _ _ _ first second =>
    exact .single trivial (.append (first emitted.left) (second emitted.right.right))
  | noValues | noItems | noParts | noAlignments | noEntries | noSpills | noStatements => exact .nil
  | moreValues _ _ first second | moreStatements _ _ first second =>
    exact .cons (first emitted.left) (second emitted.right)
  | moreItems _ _ _ first second =>
    exact .cons (first emitted.right.right.left) (second emitted.right.right.right.right)
  | textPart _ _ _ _ inner => exact .append .nil (inner emitted.right)
  | holePart _ _ _ _ _ _ first second third =>
    exact .append (.cons (first emitted.right.left) (second emitted.right.right.left))
      (third emitted.right.right.right.right.right)
  | alignment _ _ first second => exact .append (first emitted.left) (second emitted.right)
  | format _ inner => exact .append .nil (inner emitted)
  | entry _ _ first second =>
    exact .cons (.single trivial (first emitted.right.left)) (second emitted.right.right)
  | storeSimple found _ _ inner =>
    exact .cons (found.everywhere grown hasBases) (inner emitted.left)
  | storeImplicit _ _ implicit _ _ _ _ inner =>
    refine .cons (.single trivial (.except fun _ => ?_)) (inner emitted.left)
    unfold isImplicit at implicit
    split at implicit
    · exact .single trivial .nil
    · cases implicit
  | storeMember _ _ _ _ _ _ _ first second =>
    exact .cons (.single trivial (.except fun _ => first emitted.left)) (second emitted.right.left)
  | storeElement _ _ _ _ _ _ first second third =>
    exact .cons (.single trivial (.cons (first emitted.left) (second emitted.right.left)))
      (third emitted.right.right.left)
  | storeParenthesized _ inner | updateParenthesized _ inner =>
    have both := inner emitted
    exact .cons (.single trivial both.uncons.1) both.uncons.2
  | updateSimple found _ _ _ _ inner =>
    exact .cons (found.everywhere grown hasBases) (inner emitted.right.left)
  | updateMember _ _ _ _ _ _ _ _ _ _ first second =>
      have onValue := second emitted.right.right.right.right.right.left
      exact .cons (.single trivial (.except fun _ => first emitted.left)) onValue
  | updateElement _ _ _ _ _ _ _ _ first second third =>
    have onValue := third emitted.right.right.right.right.right.right.left
    exact .cons (.single trivial (.cons (first emitted.left) (second emitted.right.right.left)))
      onValue
  | spill _ _ _ first second => exact .cons (first emitted.left) (second emitted.right.right)
  | whileLoop _ _ first second =>
    have ⟨condition, body⟩ := emitted.ofLoop
    exact .single trivial (.cons (first condition) (second body))
  | onlyIf _ _ _ first second =>
    exact .single trivial (.cons (first emitted.left) (second emitted.right.ofGuarded))

end
end Compile
end OpMachine
