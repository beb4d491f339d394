import OpMachine.Proofs.Emission
import OpMachine.Proofs.MemberStores

namespace OpMachine

/-!
# Objects made from creation expressions

`Request.materialize` runs a constructor and then stores every simple assignment
below the creation in the one new object, in pre-order: those of its own
initializer and those of the creations nested in it alike.  What a slot holds in
the end is therefore up to the last assignment below the creation that stores
into it.  A slot that none stores into keeps what the constructor put there.
-/

variable {target : TypeHash} {ref : ObjectRef} {type : TypeHash} {kind : PayloadKind}
  {isValue : Bool} {slots : Slots} {setter : Setter} {value object : Value}

/-! ## Records under construction -/

/-- An object on a heap that is a record. -/
structure Heap.HasRecord (heap : Heap) (ref : ObjectRef) (type : TypeHash) (kind : PayloadKind)
    (isValue : Bool) (slots : Slots) : Prop where
  placed : ref.IsPlaced heap
  isObject : heap.object ref = ⟨type, .record kind slots, isValue⟩

theorem MemberStore.Stores.record {store : MemberStore}
    (stores : store.Stores value ref before after)
    (isRecord : before.HasRecord ref type kind isValue slots) :
    ∃ left, after.HasRecord ref type kind isValue left
      ∧ (∀ slot, store.access.slot ≠ slot -> left.get? slot = slots.get? slot)
      ∧ ∃ result, store.access.shape.read value before = .ok result
        ∧ left.get? store.access.slot = some result.1 := by
  obtain ⟨stored, later, reads, rfl⟩ := stores
  have objects := Shape.objects_read _ reads
  have placed := isRecord.placed.of_size (congrArg Array.size objects)
  refine ⟨slots.put store.access.slot stored, ⟨placed.of_size (later.size_setPayload _ _), ?_⟩,
    fun _ different => slots.get?_put_of_ne different stored,
    _, reads, slots.get?_put_self _ stored⟩
  rw [Heap.object_setPayload placed, Heap.object_eq_of_objects objects, isRecord.isObject]
  rfl

/-! ## Assignments -/

/-- The simple assignments among some operations, each with its place and value. -/
def Operation.simpleAssignments : List Operation -> List (Operation × Operation)
  | [] => []
  | .assignment _ place value :: rest => (place, value) :: simpleAssignments rest
  | _ :: rest => simpleAssignments rest

def Operation.memberName? : Operation -> Option String
  | .member _ _ _ symbol => some symbol.name
  | _ => none

namespace Setter

def convert (setter : Setter) (value : Value) : Except RuntimeError Value :=
  match setter.coerced, NumericKind.ofValue? value with
  | some kind, some found => if found = kind then .ok value else Arithmetic.convert kind value
  | _, _ => .ok value

/-- What a constant leaves in the slot of a member. -/
def constant? (setter : Setter) (literal : Literal) : Option Value := do
  let value ← Value.ofLiteral? literal
  let converted ← (setter.convert value).toOption
  let result ← (setter.store.access.shape.read converted {}).toOption
  return result.1

variable {converted : Value} {literal : Literal}

theorem convert_not_array (isValue : Value.ofLiteral? literal = some value)
    (converts : setter.convert value = .ok converted) (array : ArrayRef) :
    converted ≠ .array array := by
  rintro rfl
  unfold convert at converts
  split at converts
  · rename_i kind found _ _
    by_cases same : found = kind
    · rw [if_pos same] at converts
      cases converts
      cases literal <;> cases isValue
    · rw [if_neg same] at converts
      cases literal <;> cases isValue <;> cases kind <;> cases converts
  · cases converts
    cases literal <;> cases isValue

theorem constant?_eq (isValue : Value.ofLiteral? literal = some value)
    (converts : setter.convert value = .ok converted)
    (reads : setter.store.access.shape.read converted heap = .ok result) :
    setter.constant? literal = some result.1 := by
  have anywhere := Shape.read_of_not_array _ (convert_not_array isValue converts) reads {}
  simp only [constant?, isValue, converts, anywhere, Except.toOption, bind, Option.bind, pure]

end Setter

namespace Factory

/-- The setter that a factory has for the place of an assignment. -/
def setter? (factory : Factory) (target : TypeHash) (place : Operation) : Option Setter :=
  place.memberName?.bind fun member => factory.setters[(target, member)]?

def slot? (factory : Factory) (target : TypeHash) (place : Operation) : Option String :=
  (factory.setter? target place).map fun setter => setter.store.access.slot

/-- Setters that are there stay. -/
def KeepsSetters (before after : Factory) : Prop :=
  ∀ (key : TypeHash × String) (setter : Setter), before.setters[key]? = some setter ->
    after.setters[key]? = some setter

variable {place : Operation}

theorem KeepsSetters.setter? {before after : Factory} (keeps : before.KeepsSetters after)
    (found : before.setter? target place = some setter) :
    after.setter? target place = some setter := by
  unfold Factory.setter? at found ⊢
  cases isMember : place.memberName? with rw [isMember] at found
  | none => cases found
  | some => exact keeps _ _ found

/-- What assignments do to a new object, one after the other. -/
inductive Assigns (target : TypeHash) (ref : ObjectRef) :
    List (Operation × Operation) -> Factory -> Factory -> Prop
  | done : Assigns target ref [] factory factory
  /-- Nothing is known about the value, and the member is left alone. -/
  | pass {place value : Operation} {setter : Setter} (keeps : before.KeepsSetters middle)
      (found : middle.setter? target place = some setter) (unknown : value.constant = none)
      (same : middle.heap = before.heap) (others : Assigns target ref rest middle after) :
      Assigns target ref ((place, value) :: rest) before after
  /-- A value is stored, which is the constant if there is one. -/
  | store {place value : Operation} {setter : Setter} {given converted : Value}
      (keeps : before.KeepsSetters middle) (found : middle.setter? target place = some setter)
      (isGiven : ∀ literal, value.constant = some literal ->
        Value.ofLiteral? literal = some given) (converts : setter.convert given = .ok converted)
      (stores : setter.store.Stores converted ref before.heap middle.heap)
      (others : Assigns target ref rest middle after) :
      Assigns target ref ((place, value) :: rest) before after

/-- What assignments leave in the slots of a record. -/
structure Leaves (factory : Factory) (target : TypeHash) (assigned : List (Operation × Operation))
    (slots left : Slots) : Prop where
  /-- A slot that none stores into is as it was. -/
  kept : ∀ slot, (∀ entry, entry ∈ assigned ->
    factory.slot? target entry.1 ≠ some slot) -> left.get? slot = slots.get? slot
  /-- A constant is in its slot if no later assignment stores into it. -/
  last : ∀ front place value back literal slot, assigned = front ++ (place, value) :: back ->
    value.constant = some literal -> factory.slot? target place = some slot ->
      (∀ entry, entry ∈ back -> factory.slot? target entry.1 ≠ some slot) ->
        ∃ stored, (factory.setter? target place).bind (·.constant? literal) = some stored
          ∧ left.get? slot = some stored

/-- The slots that one assignment and some others after it leave. -/
theorem Leaves.cons {factory : Factory} (others : factory.Leaves target rest middle left)
    (kept : ∀ slot, factory.slot? target place ≠ some slot ->
      middle.get? slot = slots.get? slot)
    (own : ∀ literal slot, operation.constant = some literal ->
      factory.slot? target place = some slot ->
        ∃ stored, (factory.setter? target place).bind (·.constant? literal) = some stored
          ∧ middle.get? slot = some stored) :
    factory.Leaves target ((place, operation) :: rest) slots left where
  kept slot none := by
    rw [others.kept slot fun entry member => none entry (.tail _ member)]
    exact kept slot (none _ (.head _))
  last front place value back literal slot isWhole isConstant isSlot untouched := by
    cases front with
    | nil =>
      cases isWhole
      rw [others.kept slot untouched]
      exact own literal slot isConstant isSlot
    | cons _ front =>
      cases isWhole
      exact others.last front place value back literal slot rfl isConstant isSlot untouched

namespace Assigns

variable {assigned : List (Operation × Operation)} {before after : Factory}

theorem keepsSetters (assigns : Assigns target ref assigned before after) :
    before.KeepsSetters after := by
  induction assigns with
  | done => exact fun _ _ found => found
  | pass keeps _ _ _ _ ih | store keeps _ _ _ _ _ ih =>
    exact fun key setter found => ih key setter (keeps key setter found)

theorem leaves (assigns : Assigns target ref assigned before after)
    (isRecord : before.heap.HasRecord ref type kind isValue slots) :
    ∃ left, after.heap.HasRecord ref type kind isValue left
      ∧ after.Leaves target assigned slots left := by
  induction assigns generalizing slots with
  | done =>
    refine ⟨slots, isRecord, fun _ _ => rfl, ?_⟩
    intro front place value back literal slot isWhole
    cases List.append_ne_nil_of_right_ne_nil front (List.cons_ne_nil _ back) isWhole.symm
  | pass _ _ unknown same _ ih =>
    rw [← same] at isRecord
    obtain ⟨left, isLeft, others⟩ := ih isRecord
    refine ⟨left, isLeft, others.cons (fun _ _ => rfl) ?_⟩
    intro literal slot isConstant
    cases unknown.symm.trans isConstant
  | store _ found isGiven converts stores others ih =>
    have setter := others.keepsSetters.setter? found
    obtain ⟨_, isMiddle, kept, stored⟩ := stores.record isRecord
    obtain ⟨left, isLeft, others⟩ := ih isMiddle
    refine ⟨left, isLeft, others.cons ?_ ?_⟩
    · intro slot different
      rw [slot?, setter] at different
      exact kept slot fun same => different (congrArg some same)
    · intro literal slot isConstant isSlot
      rw [slot?, setter] at isSlot
      cases isSlot
      obtain ⟨result, reads, isStored⟩ := stored
      refine ⟨result.1, ?_, isStored⟩
      have isValue := isGiven literal isConstant
      rw [setter]
      exact Setter.constant?_eq isValue converts reads

end Assigns

end Factory

/-! ## Requests -/

namespace Request

variable {before after : Factory} {place operation : Operation} {α : Type}

/-- What a constructor makes of constant arguments, before any assignment. -/
def newObject (target : TypeHash) (constructor : MethodSymbol) (arguments : List Operation) :
    Request Value := do
  construct target (constructor.parameters.map (·.type)) (← constantArguments arguments)

/-- A request that leaves the heap and the setters alone. -/
def Still (request : Request α) : Prop :=
  ∀ before answer after, request before = .ok answer after ->
    after.heap = before.heap ∧ after.setters = before.setters

namespace Still

theorem pure (answer : α) : Still (Pure.pure answer) := by
  intro before other after runs
  cases runs
  exact ⟨rfl, rfl⟩

theorem bind {β : Type} {request : Request α} {next : α -> Request β} (first : Still request)
    (second : ∀ answer, Still (next answer)) : Still (request >>= next) := by
  intro before answer after runs
  obtain ⟨middle, _, runs, later⟩ := ok_of_bind runs
  have one := first _ _ _ runs
  have two := second middle _ _ _ later
  exact ⟨two.1.trans one.1, two.2.trans one.2⟩

theorem catalog : Still catalog := by
  intro before other after runs
  cases runs
  exact ⟨rfl, rfl⟩

theorem compilationError (error : CompilationError) :
    Still (compilationError error : Request α) := by
  intro before other after runs
  cases runs

theorem make (action : Make α) : Still (make action) := by
  intro before answer after runs
  simp only [Request.make, Factory.make] at runs
  cases ran : action before.workspace with rw [ran] at runs
  | ok =>
    cases runs
    exact ⟨rfl, rfl⟩
  | error => cases runs

theorem memberType (type : TypeRef) (qualified : String) : Still (memberType type qualified) := by
  refine (make _).bind fun answer => ?_
  cases answer with
  | none => exact compilationError _
  | some type => exact pure type

theorem newSetter (owner : TypeHash) (member : String) : Still (newSetter owner member) := by
  have made (type : TypeRef) (qualified : String) (store : MemberStore) :
      Still (Request.memberType type qualified >>= fun type => setterOf type store) :=
    (memberType type qualified).bind fun _ => catalog.bind fun _ => pure _
  refine catalog.bind fun catalog => ?_
  split
  · exact made _ _ _
  · split
    · exact compilationError _
    · simp only
      split
      · exact compilationError _
      · split
        · exact compilationError _
        · exact made _ _ _

end Still

variable {member : String}

theorem setter_of_known (known : before.setters[(target, member)]? = some setter) :
    Request.setter target member before = .ok setter before := by
  have reads : (get : Request Factory) before = .ok before before := rfl
  rw [Request.setter, bind_of_ok reads, known]
  rfl

theorem setter_ok (runs : Request.setter target member before = .ok found after) :
    before.KeepsSetters after ∧ after.setters[(target, member)]? = some found
      ∧ after.heap = before.heap := by
  obtain ⟨_, _, isState, runs⟩ := ok_of_bind runs
  cases isState
  cases known : before.setters[(target, member)]? with rw [known] at runs
  | some =>
    cases runs
    exact ⟨fun _ _ found => found, known, rfl⟩
  | none =>
    obtain ⟨_, _, isNew, runs⟩ := ok_of_bind runs
    have still := Still.newSetter _ _ _ _ _ isNew
    cases runs
    refine ⟨?_, Std.HashMap.getElem?_insert_self, still.1⟩
    intro key other isOther
    rw [Std.HashMap.getElem?_insert, still.2]
    split
    · rename_i same
      cases beq_iff_eq.mp same
      cases known.symm.trans isOther
    · exact isOther

variable {typeName : String}

theorem assignedValue_ok
    (runs : assignedValue target typeName member setter operation before = .ok given after) :
    (after.heap = before.heap ∧ after.setters = before.setters)
      ∧ ∀ literal, operation.constant = some literal ->
        ∃ value, given = some value ∧ Value.ofLiteral? literal = some value := by
  unfold assignedValue at runs
  cases isConstant : operation.constant with
  | some literal =>
    cases isValue : Value.ofLiteral? literal with simp only [isConstant, isValue] at runs
    | none => cases runs
    | some value =>
      cases runs
      refine ⟨⟨rfl, rfl⟩, fun other same => ?_⟩
      cases same
      exact ⟨value, rfl, isValue⟩
  | none =>
    rw [isConstant] at runs
    refine ⟨?_, nofun⟩
    revert runs
    have asks (assignment : UnknownAssignment) : Still (askFallback assignment) := by
      intro before answer after runs
      obtain ⟨_, _, isState, runs⟩ := ok_of_bind runs
      cases isState
      cases isFallback : before.fallback with
      | none | some =>
        rw [isFallback] at runs
        cases runs
        exact ⟨rfl, rfl⟩
    refine (asks _).bind (fun answer => ?_) _ _ _
    cases answer with
    | some => exact Still.pure _
    | none =>
      simp only
      split
      · exact Still.pure _
      · exact Still.compilationError _

theorem coerce_ok (runs : coerce setter value before = .ok converted after) :
    setter.convert value = .ok converted ∧ before = after := by
  unfold coerce at runs
  unfold Setter.convert
  cases isCoerced : setter.coerced with rw [isCoerced] at runs
  | none =>
    cases runs
    exact ⟨rfl, rfl⟩
  | some kind =>
    cases isKind : NumericKind.ofValue? value with rw [isKind] at runs
    | none =>
      cases runs
      exact ⟨rfl, rfl⟩
    | some found =>
      by_cases same : found = kind
      · simp only [if_pos same] at runs ⊢
        cases runs
        exact ⟨rfl, rfl⟩
      · simp only [if_neg same] at runs ⊢
        cases converts : Arithmetic.convert kind value with rw [converts] at runs
        | ok =>
          cases runs
          exact ⟨rfl, rfl⟩
        | error => cases runs

/-- A setter ends at once. -/
theorem callHost_setter_ok {member : MemberSetter} {call : HostCall}
    (calls : callHost member.function call before = .ok answer after) : ∃ heap,
      member.function.action.perform before.natives call before.heap = .ended (.ok answer) heap
        ∧ after = { before with heap } := by
  obtain ⟨_, _, isState, calls⟩ := ok_of_bind calls
  cases isState
  have isEnd : ∃ result heap, member.function.action.perform before.natives call before.heap
      = .ended result heap := by
    change ∃ result heap, HostStep.of _ _ = HostStep.ended result heap
    unfold HostStep.of
    split
    · exact ⟨_, _, rfl⟩
    · exact ⟨_, _, rfl⟩
  obtain ⟨result, heap, isEnd⟩ := isEnd
  rw [isEnd] at calls ⊢
  cases result with
  | ok =>
    cases calls
    exact ⟨heap, rfl, rfl⟩
  | error => cases calls

theorem apply_ok (runs : apply setter (.object ref) value before = .ok () after) :
    (∃ converted, setter.convert value = .ok converted
      ∧ setter.store.Stores converted ref before.heap after.heap)
      ∧ after.setters = before.setters := by
  obtain ⟨converted, _, coerces, stores⟩ := ok_of_bind runs
  obtain ⟨converts, rfl⟩ := coerce_ok coerces
  cases isStore : setter.store with rw [isStore] at stores
  | property member =>
    obtain ⟨_, _, calls, isEnd⟩ := ok_of_bind stores
    cases isEnd
    obtain ⟨step, isStep, isState⟩ := callHost_setter_ok calls
    rw [isState]
    exact ⟨⟨converted, converts, MemberSetter.perform_stores isStep⟩, rfl⟩
  | field access =>
    obtain ⟨_, _, isState, stores⟩ := ok_of_bind stores
    cases isState
    cases sets : access.set before.heap ref converted with rw [sets] at stores
    | error => cases stores
    | ok =>
      cases stores
      exact ⟨⟨converted, converts, SlotAccess.set_stores sets⟩, rfl⟩

/-- The assignments among some operations, stored in an object. -/
theorem assigns_of_ok
    (runs : assignments target typeName (.object ref) operations before = .ok () after) :
    Factory.Assigns target ref (Operation.simpleAssignments operations) before after := by
  induction operations generalizing before with
  | nil =>
    cases runs
    exact .done
  | cons operation _ ih =>
    cases operation with
    | assignment _ place value =>
      cases place with
      | member =>
        obtain ⟨_, _, isMember, runs⟩ := ok_of_bind runs
        cases isMember
        obtain ⟨setter, _, isSetter, runs⟩ := ok_of_bind runs
        obtain ⟨given, known, isGiven, runs⟩ := ok_of_bind runs
        obtain ⟨keeps, isThere, sameHeap⟩ := setter_ok isSetter
        obtain ⟨⟨heap, setters⟩, constant⟩ := assignedValue_ok isGiven
        rw [← setters] at isThere
        rw [← heap] at sameHeap
        cases given with
        | none =>
          refine .pass (fun key setter isSetter => ?_) isThere ?_ sameHeap (ih runs)
          · rw [setters]
            exact keeps key setter isSetter
          · cases isConstant : value.constant with
            | none => rfl
            | some literal =>
              obtain ⟨_, impossible, _⟩ := constant literal isConstant
              cases impossible
        | some =>
          obtain ⟨_, stored, applies, runs⟩ := ok_of_bind runs
          obtain ⟨⟨converted, converts, stores⟩, same⟩ := apply_ok applies
          rw [sameHeap] at stores
          refine .store (fun key setter isSetter => ?_) ?_ ?_ converts stores (ih runs)
          · rw [same, setters]
            exact keeps key setter isSetter
          · change stored.setters[_]? = _
            rw [same]
            exact isThere
          · intro literal isConstant
            obtain ⟨_, same, isValue⟩ := constant literal isConstant
            cases same
            exact isValue
      | _ => cases runs
    | _ => exact ih runs

theorem materialize_eq (info : Info) (constructor : MethodSymbol)
    (arguments initializer : List Operation) :
    materialize target (.objectCreation info constructor arguments initializer) = (do
      let object ← newObject target constructor arguments
      let typeName := (← catalog).displayName target
      assignments target typeName object
        (Operation.objectCreation info constructor arguments initializer).descendants
      return object) := by
  simp only [materialize, newObject, bind_assoc]

/-- Nested creations have no object of their own here.  The object that a
creation expression describes is the one its constructor makes.  Of all simple
assignments below the creation, at any depth, the last one to store into a slot
decides what it holds: the constant if it has one, converted to the kind of the
member.  A slot that none stores into keeps what the constructor put there. -/
theorem materialize_leaves {info : Info} {constructor : MethodSymbol}
    {arguments initializer : List Operation} {made : Factory}
    (constructs : newObject target constructor arguments before = .ok (.object ref) made)
    (isRecord : made.heap.HasRecord ref type kind isValue slots)
    (materializes : materialize target (.objectCreation info constructor arguments initializer)
      before = .ok object after) :
    object = .object ref ∧ ∃ left, after.heap.HasRecord ref type kind isValue left
      ∧ after.Leaves target (Operation.simpleAssignments
          (Operation.objectCreation info constructor arguments initializer).descendants)
        slots left := by
  rw [materialize_eq, EStateM.bind_of_ok constructs] at materializes
  obtain ⟨_, _, isCatalog, materializes⟩ := EStateM.ok_of_bind materializes
  cases isCatalog
  obtain ⟨_, _, assigns, isEnd⟩ := EStateM.ok_of_bind materializes
  cases isEnd
  exact ⟨rfl, (assigns_of_ok assigns).leaves isRecord⟩

end Request

namespace Linked

/-- A class of records, empty at first. -/
def node : HostType := Catalog.hostType
  { name := "Node", constructors := [⟨[], ⟨.empty, .construct "Node" ⟨"Node"⟩ false []⟩⟩] } none

/-- A setter that converts nothing. -/
def plain (member : String) : Setter :=
  ⟨.empty, true, none, .field ⟨⟨"Node"⟩, member, .any, none⟩⟩

def factory : Factory where
  workspace := { catalog := { types := ({} : Std.HashMap TypeHash HostType).insert .empty node } }
  setters := (({} : Std.HashMap (TypeHash × String) Setter).insert (.empty, "Next")
    (plain "Next")).insert (.empty, "Size") (plain "Size")

/-- The factory with the object that the constructor makes. -/
def holding (slots : Slots) : Factory :=
  { factory with heap := { objects := #[⟨.empty, .record ⟨"Node"⟩ slots, false⟩] } }

def constructor : MethodSymbol := .constructor ⟨1⟩ (.parameter "T")

def place (member : String) : Operation :=
  .member {} .field none ⟨member, .parameter "T", .int, false⟩

def number (value : Int32) : Operation := .literal { literal := some (.int value) }

def size (value : Int32) : Operation := .assignment {} (place "Size") (number value)

/-- `new Node { Size = 5 }` -/
def inner : Operation := .objectCreation {} constructor [] [size 5]

def next : Operation := .assignment {} (place "Next") inner

/-- `new Node { Size = 3, Next = new Node { Size = 5 } }` -/
def outer : Operation := .objectCreation {} constructor [] [size 3, next]

theorem descendants_outer : outer.descendants =
    [size 3, place "Size", number 3, next, place "Next", inner, size 5, place "Size", number 5] := by
  simp only [outer, Operation.descendants, Operation.children, inner, size, place, number, next,
    Operation.visit, List.nil_append, List.cons_append, Option.toList]

theorem newObject_factory :
    Request.newObject .empty constructor [] factory = .ok (.object (.place 0)) (holding []) := by
  have selected : Overload.select factory.catalog [] (factory.catalog.constructors .empty)
      = some (Catalog.candidate [] (Catalog.constructorEntry node.hash
        ⟨[], ⟨.empty, .construct "Node" ⟨"Node"⟩ false []⟩⟩)) := by
    have declares : factory.catalog.declaring? .empty = some (node, []) := by
      simp only [Catalog.declaring?, Catalog.get?, factory, Factory.catalog,
        Std.HashMap.getElem?_insert_self]
      rfl
    rw [Catalog.constructors, declares]
    rfl
  have arguments : Request.constantArguments [] factory = .ok [] factory := rfl
  have requested : Request.make (Make.resolveAll (constructor.parameters.map (·.type))) factory
      = .ok [] factory := rfl
  have reads : Request.catalog factory = .ok factory.catalog factory := rfl
  rw [Request.newObject, bind_of_ok arguments, Request.construct,
    bind_of_ok requested, bind_of_ok reads, selected]
  rfl

section

variable (slots : Slots) (rest : List Operation) (name : String)

theorem setter_size : (holding slots).setters[(TypeHash.empty, "Size")]? = some (plain "Size") :=
  Std.HashMap.getElem?_insert_self

theorem setter_next : (holding slots).setters[(TypeHash.empty, "Next")]? = some (plain "Next") := by
  change (Std.HashMap.insert _ _ _)[_]? = _
  rw [Std.HashMap.getElem?_insert]
  exact Std.HashMap.getElem?_insert_self

theorem assignments_size (value : Int32) :
    Request.assignments .empty name (.object (.place 0)) (size value :: rest) (holding slots)
      = Request.assignments .empty name (.object (.place 0)) rest
        (holding (slots.put "Size" (.int value))) := by
  change (Request.setter .empty "Size" >>= _) (holding slots) = _
  rw [bind_of_ok (Request.setter_of_known (setter_size slots))]
  rfl

end

theorem materialize_outer : Request.materialize .empty outer factory
      = .ok (.object (.place 0)) (holding [("Size", .int 5)]) := by
  rw [outer, Request.materialize_eq, bind_of_ok newObject_factory]
  change (Request.assignments .empty _ (.object (.place 0)) outer.descendants >>= _) (holding []) = _
  rw [descendants_outer, bind_of_ok]
  · rfl
  · rw [assignments_size]
    change (Request.setter .empty "Next" >>= _) (holding _) = _
    rw [bind_of_ok (Request.setter_of_known (setter_next _))]
    change Request.assignments .empty _ _ (size 5 :: _) _ = _
    rw [assignments_size]
    rfl

/-- The outer object holds the number that the inner creation assigns. -/
theorem outer_holds_inner : ∃ left,
    Request.materialize .empty outer factory
        = .ok (.object (.place 0)) (holding [("Size", .int 5)])
      ∧ (holding [("Size", .int 5)]).heap.HasRecord (.place 0) .empty ⟨"Node"⟩ false left
      ∧ left.get? "Size" = some (.int 5) := by
  have isRecord : (holding []).heap.HasRecord (.place 0) .empty ⟨"Node"⟩ false [] :=
    ⟨⟨0, rfl, by decide⟩, rfl⟩
  obtain ⟨_, left, isLeft, leaves⟩ :=
    Request.materialize_leaves newObject_factory isRecord materialize_outer
  have assigned : Operation.simpleAssignments outer.descendants
      = [(place "Size", number 3), (place "Next", inner)] ++ [(place "Size", number 5)] := by
    rw [descendants_outer]
    rfl
  have known : (holding [("Size", .int 5)]).setter? .empty (place "Size") = some (plain "Size") :=
    setter_size _
  obtain ⟨_, isStored, found⟩ := leaves.last _ _ _ [] (.int 5) "Size" assigned rfl
    (by rw [Factory.slot?, known]; rfl) (fun _ member => nomatch member)
  rw [known] at isStored
  cases isStored
  exact ⟨left, materialize_outer, isLeft, found⟩

end Linked

end OpMachine
