import OpMachine.Machine.Run

namespace OpMachine

/-!
# What operators and host functions leave alone

Operators on values, the heap and the actions of host functions fail for
reasons of their own: operands that do not fit, a missing receiver, a failure
that the host reports.  They never blame the code they are called from.  And
whatever they do, they make no functions, keep the arrays that are there, and
leave it to every object whether it is a value object; and they make up no
references, so no value dangles afterwards if none did before.

Both facts are stated together by `Spares`, which says that a result that is
there has a property and that a failure does not blame the code.  The property
is a `Heap.Change` from one heap to another.

Native functions may do more.  What has to be known of them is stated as two
laws, `Natives.Orderly` and `Natives.Grounded`, which go along with a function
through all the calls that it asks for.
-/

/-- A failure that lies in the code itself: its bytes are no code, or a hash in
it belongs to no member. -/
def RuntimeError.BlamesCode : RuntimeError -> Prop
  | .invalidBytecode _ _ => True
  | .memberNotFound typeName member =>
    typeName = "<catalog>" ∧ ∃ hash : TypeHash, member = hash.text
  | _ => False

/-- A result with a property, or a failure that does not blame the code. -/
def Spares {α : Type} (result : Except RuntimeError α) (Good : α -> Prop) : Prop :=
  match result with
  | .ok value => Good value
  | .error error => ¬ error.BlamesCode

namespace Spares

variable {α β : Type} {result : Except RuntimeError α}

theorem bind (first : Spares result Middle)
    (rest : ∀ value, Middle value -> Spares (next value) Good) :
    Spares (result >>= next) Good := by
  cases result with
  | ok value => exact rest value first
  | error => exact first

theorem mono (spares : Spares result Stronger)
    (implies : ∀ value, Stronger value -> Weaker value) : Spares result Weaker := by
  cases result with
  | ok value => exact implies value spares
  | error => exact spares

end Spares

/-! ## References -/

/-- A value is no reference to a place that a heap does not have. -/
def Value.IsOn (heap : Heap) : Value -> Prop
  | .object (.place index) => index < heap.objects.size
  | _ => True

/-- A value that is no reference to a place at all. -/
def Value.Unplaced : Value -> Prop
  | .object (.place _) => False
  | _ => True

variable {value : Value} {slots : Slots} {slot : String} {entry : String × Value}

theorem Value.Unplaced.isOn (unplaced : value.Unplaced) (heap : Heap) : value.IsOn heap := by
  rcases value with _ | _ | _ | _ | _ | _ | _ | _ | _ | _ | _ | ref | _
  case object =>
    cases ref with
    | place => exact unplaced.elim
    | closure => trivial
  all_goals trivial

/-! ## Operators -/

namespace Arithmetic

variable {α : Type}

variable (opcode : Opcode)

include opcode

theorem spares_orMismatch (left right : Value) (unplaced : ∀ result, (wrap result).Unplaced)
    (result : Option α) : Spares (orMismatch opcode left right wrap result) Value.Unplaced := by
  cases result with
  | none => exact not_false
  | some value => exact unplaced value

theorem spares_integers [Add α] [Sub α] [Mul α] [Div α] [Mod α] [AndOp α] [OrOp α]
    [XorOp α] [OfNat α 0] [DecidableEq α] (left right : α) :
    Spares (integers opcode left right) fun _ => True := by
  unfold integers
  split
  case h_4 | h_5 =>
    split
    · exact not_false
    · trivial
  all_goals trivial

variable (left right : Value)

theorem spares_shift : Spares (shift opcode left right) Value.Unplaced := by
  unfold shift
  split
  · exact not_false
  · next count _ =>
    cases left with
    | int | int64 | uint | uint64 => trivial
    | _ => exact not_false

theorem spares_joined : Spares (joined opcode left right) Value.Unplaced := by
  unfold joined
  split
  · trivial
  · trivial
  · exact not_false

theorem spares_binary : Spares (binary opcode left right) Value.Unplaced := by
  unfold binary
  split
  · exact spares_shift opcode left right
  · split
    case h_5 | h_6 | h_7 =>
      apply spares_orMismatch
      exact fun _ => trivial
    case h_8 => exact spares_joined opcode left right
    all_goals
      refine (spares_integers _ _ _).bind fun _ _ => ?_
      apply spares_orMismatch
      exact fun _ => trivial

theorem spares_unary (operand : Value) : Spares (unary opcode operand) Value.Unplaced := by
  unfold unary
  split
  case h_10 => exact not_false
  all_goals trivial

theorem spares_compare : Spares (compare opcode left right) fun _ => True := by
  unfold compare
  simp only
  split
  · trivial
  · exact not_false

omit opcode

theorem spares_convert (kind : NumericKind) (value : Value) :
    Spares (convert kind value) Value.Unplaced := by
  unfold convert
  split
  · cases kind <;> trivial
  · cases kind <;> trivial
  · split
    · cases kind <;> trivial
    · exact not_false

end Arithmetic

/-! ## Changes of a heap -/

/-- The values that an action brings with it. -/
def HostAction.Fixes (action : HostAction) (value : Value) : Prop :=
  match action with
  | .native _ captured => value ∈ captured
  | .getMember access => access.fixed = some value
  | _ => False

namespace Heap

/-- No value on a heap dangles. -/
structure Closed (heap : Heap) : Prop where
  items : ∀ cell, cell ∈ heap.arrays -> ∀ item, item ∈ cell.items -> item.IsOn heap
  slots : ∀ cell, cell ∈ heap.objects -> ∀ slot, slot ∈ cell.payload.slots ->
    slot.2.IsOn heap
  targets : ∀ cell, cell ∈ heap.functions -> ∀ target, cell.target = some target ->
    target.IsOn heap
  natives : ∀ cell, cell ∈ heap.functions -> ∀ native, cell.body = .host native ->
    ∀ value, native.action.Fixes value -> value.IsOn heap

variable (heap : Heap)

def element? (ref : ArrayRef) (position : Nat) : Option Value :=
  heap.arrays[ref.index]? >>= fun cell => cell.items[position]?

/-- A later heap with more objects and arrays on it.  Objects stay value objects
or others, and arrays are not written. -/
structure Evolves (before after : Heap) : Prop where
  objects : before.objects.size ≤ after.objects.size
  kinds : ∀ index, index < before.objects.size ->
    (after.object (.place index)).isValue = (before.object (.place index)).isValue
  arrays : before.arrays.size ≤ after.arrays.size
  kept : ∀ index, index < before.arrays.size -> after.arrays[index]? = before.arrays[index]?

theorem Evolves.refl : heap.Evolves heap :=
  ⟨Nat.le_refl _, fun _ _ => rfl, Nat.le_refl _, fun _ _ => rfl⟩

theorem Evolves.trans {first second third : Heap} (earlier : first.Evolves second)
    (later : second.Evolves third) : first.Evolves third where
  objects := Nat.le_trans earlier.objects later.objects
  kinds := fun index inside => (later.kinds index (Nat.lt_of_lt_of_le inside earlier.objects)).trans
    (earlier.kinds index inside)
  arrays := Nat.le_trans earlier.arrays later.arrays
  kept := fun index inside => (later.kept index (Nat.lt_of_lt_of_le inside earlier.arrays)).trans
    (earlier.kept index inside)

variable {after : Heap} {value : Value}

theorem isOn_of_le (le : before.objects.size ≤ after.objects.size) (isOn : value.IsOn before) :
    value.IsOn after := by
  rcases value with _ | _ | _ | _ | _ | _ | _ | _ | _ | _ | _ | ref | _
  case object =>
    cases ref with
    | place => exact Nat.lt_of_lt_of_le isOn le
    | closure => trivial
  all_goals trivial

/-- A change of a heap by a part of the program that is given some values and
makes others.  It makes no functions and loads none, and if nothing was dangling
nothing will be. -/
structure Change (before : Heap) (given : Value -> Prop) (after : Heap)
    (made : Value -> Prop) : Prop extends before.Evolves after where
  functions : after.functions = before.functions
  delegates : after.delegates = before.delegates
  closed : before.Closed -> (∀ value, given value -> value.IsOn before) ->
    after.Closed ∧ ∀ value, made value -> value.IsOn after

section

variable {heap : Heap} {given made : Value -> Prop} {before after : Heap}

theorem Change.still (each : heap.Closed -> (∀ value, given value -> value.IsOn heap) ->
    ∀ value, made value -> value.IsOn heap) : heap.Change given heap made :=
  ⟨.refl heap, rfl, rfl, fun closed isOn => ⟨closed, each closed isOn⟩⟩

theorem Change.handed (each : ∀ value, made value -> given value ∨ value.Unplaced) :
    heap.Change given heap made := by
  refine .still fun _ isOn value isMade => ?_
  rcases each value isMade with isGiven | unplaced
  · exact isOn value isGiven
  · exact unplaced.isOn heap

theorem Change.trans {first second third : Heap} (earlier : first.Change given second middle)
    (later : second.Change (fun value => given value ∨ middle value) third made) :
    first.Change given third made where
  toEvolves := earlier.toEvolves.trans later.toEvolves
  functions := later.functions.trans earlier.functions
  delegates := later.delegates.trans earlier.delegates
  closed := by
    intro closed isOn
    rcases earlier.closed closed isOn with ⟨middleClosed, middleIsOn⟩
    apply later.closed middleClosed
    rintro value (isGiven | isMiddle)
    · exact isOn_of_le earlier.objects (isOn value isGiven)
    · exact middleIsOn value isMiddle

theorem Change.widen (change : before.Change given after made)
    (enough : ∀ value, given value -> more value) : before.Change more after made :=
  { change with
    closed := fun closed isOn =>
      change.closed closed fun value isGiven => isOn value (enough value isGiven) }

theorem Change.narrow (change : before.Change given after made)
    (wanted : ∀ value, less value -> made value) : before.Change given after less :=
  { change with
    closed := fun closed isOn => (change.closed closed isOn).imp_right
      fun isMade value isLess => isMade value (wanted value isLess) }

/-- What is given is still there after a change. -/
theorem Change.keeping (change : before.Change given after made) :
    before.Change given after fun value => given value ∨ made value where
  toEvolves := change.toEvolves
  functions := change.functions
  delegates := change.delegates
  closed := by
    intro closed isOn
    have result := change.closed closed isOn
    refine ⟨result.1, ?_⟩
    rintro value (isGiven | isMade)
    · exact isOn_of_le change.objects (isOn value isGiven)
    · exact result.2 value isMade

theorem change_addArray (cell : ArrayCell)
    (items : heap.Closed -> (∀ value, given value -> value.IsOn heap) ->
      ∀ item, item ∈ cell.items -> item.IsOn heap) :
    heap.Change given (heap.addArray cell).2 (· = .array (heap.addArray cell).1) where
  objects := Nat.le_refl _
  kinds := fun _ _ => rfl
  arrays := by
    rw [addArray, Array.size_push]
    exact Nat.le_succ _
  kept := fun index inside => Array.getElem?_push_lt inside ▸ (Array.getElem?_eq_getElem inside).symm
  functions := rfl
  delegates := rfl
  closed := by
    intro closed isOn
    refine ⟨⟨?_, closed.slots, closed.targets, closed.natives⟩, ?_⟩
    · intro other member
      rcases Array.mem_push.mp member with known | rfl
      · exact closed.items other known
      · exact items closed isOn
    · rintro value rfl
      trivial

/-- Nothing dangles on a heap with other objects, as long as nothing in them does. -/
theorem Closed.of_le (closed : heap.Closed) (le : heap.objects.size ≤ after.objects.size)
    (arrays : after.arrays = heap.arrays) (functions : after.functions = heap.functions)
    (slots : ∀ cell, cell ∈ after.objects -> ∀ slot, slot ∈ cell.payload.slots ->
      slot.2.IsOn heap) : after.Closed where
  items := fun cell member item isItem =>
    isOn_of_le le (closed.items cell (arrays ▸ member) item isItem)
  slots := fun cell member slot isSlot => isOn_of_le le (slots cell member slot isSlot)
  targets := fun cell member target isTarget =>
    isOn_of_le le (closed.targets cell (functions ▸ member) target isTarget)
  natives := fun cell member native isNative value isFixed =>
    isOn_of_le le (closed.natives cell (functions ▸ member) native isNative value isFixed)

theorem change_addObject (cell : ObjectCell)
    (slots : heap.Closed -> (∀ value, given value -> value.IsOn heap) ->
      ∀ slot, slot ∈ cell.payload.slots -> slot.2.IsOn heap) :
    heap.Change given (heap.addObject cell).2 (· = .object (heap.addObject cell).1) where
  objects := by
    rw [addObject, Array.size_push]
    exact Nat.le_succ _
  kinds := by
    intro index inside
    simp [object, addObject, Array.getElem?_push_lt inside, Array.getElem?_eq_getElem inside]
  arrays := Nat.le_refl _
  kept := fun _ _ => rfl
  functions := rfl
  delegates := rfl
  closed := by
    intro closed isOn
    have le : heap.objects.size ≤ (heap.addObject cell).2.objects.size := by
      rw [addObject, Array.size_push]
      exact Nat.le_succ _
    refine ⟨closed.of_le le rfl rfl fun other member => ?_, ?_⟩
    · rcases Array.mem_push.mp member with known | rfl
      · exact closed.slots other known
      · exact slots closed isOn
    · rintro value rfl
      change heap.objects.size < (heap.addObject cell).2.objects.size
      rw [addObject, Array.size_push]
      exact .refl

theorem change_setPayload (ref : ObjectRef) (payload : Payload)
    (slots : heap.Closed -> (∀ value, given value -> value.IsOn heap) ->
      ∀ slot, slot ∈ payload.slots -> slot.2.IsOn heap) :
    heap.Change given (heap.setPayload ref payload) fun _ => False := by
  cases ref with
  | closure => exact .still fun _ _ _ impossible => impossible.elim
  | place place =>
    have sizes : (heap.setPayload (.place place) payload).objects.size = heap.objects.size :=
      Array.size_modify
    refine ⟨⟨Nat.le_of_eq sizes.symm, ?_, Nat.le_refl _, fun _ _ => rfl⟩, rfl, rfl, ?_⟩
    · intro index inside
      simp only [object, setPayload, Array.getD_eq_getD_getElem?, Array.getElem?_modify,
        Array.getElem?_eq_getElem inside]
      split <;> rfl
    · intro closed isOn
      refine ⟨closed.of_le (Nat.le_of_eq sizes.symm) rfl rfl fun cell member slot isSlot => ?_,
        fun _ impossible => impossible.elim⟩
      rcases Array.mem_iff_getElem.mp member with ⟨index, inside, rfl⟩
      simp only [setPayload, Array.getElem_modify] at isSlot
      split at isSlot
      · exact slots closed isOn slot isSlot
      · exact closed.slots _ (Array.getElem_mem _) slot isSlot

theorem Closed.payload_slots (closed : heap.Closed) (ref : ObjectRef) {slot : String × Value}
    (member : slot ∈ (heap.object ref).payload.slots) : slot.2.IsOn heap := by
  cases ref with
  | closure => cases member
  | place index =>
    by_cases inside : index < heap.objects.size
    · rw [object, Array.getD_eq_getD_getElem?, Array.getElem?_eq_getElem inside] at member
      exact closed.slots _ (Array.getElem_mem inside) slot member
    · rw [object, Array.getD_eq_getD_getElem?,
        Array.getElem?_eq_none (Nat.le_of_not_lt inside)] at member
      cases member

theorem Closed.array_items (closed : heap.Closed) (ref : ArrayRef) {item : Value}
    (member : item ∈ (heap.array ref).items) : item.IsOn heap := by
  by_cases inside : ref.index < heap.arrays.size
  · rw [array, Array.getD_eq_getD_getElem?, Array.getElem?_eq_getElem inside] at member
    exact closed.items _ (Array.getElem_mem inside) item member
  · rw [array, Array.getD_eq_getD_getElem?,
      Array.getElem?_eq_none (Nat.le_of_not_lt inside)] at member
    cases Array.not_mem_empty _ member

theorem change_copied (value : Value) :
    heap.Change (· = value) (heap.copied value).2 (· = (heap.copied value).1) := by
  cases value with
  | object ref =>
    unfold copied
    simp only
    split
    · exact change_addObject _ fun closed _ slot => closed.payload_slots ref
    · exact .handed fun _ => .inl
  | _ => exact .handed fun _ => .inl

theorem change_copies (value : Value) (count : Nat) (items : Array Value) :
    heap.Change (fun other => other = value ∨ other ∈ items) (heap.copies value count items).2
      (· ∈ (heap.copies value count items).1) := by
  induction count generalizing heap items with
  | zero => exact .handed fun _ member => .inl (.inr member)
  | succ _ ih =>
    have first : heap.Change (fun other => other = value ∨ other ∈ items) (heap.copied value).2
        (· = (heap.copied value).1) :=
      (heap.change_copied value).widen (fun _ => .inl)
    refine first.trans ((ih _).widen ?_)
    rintro other (same | member)
    · exact .inl (.inl same)
    · rcases Array.mem_push.mp member with known | copy
      · exact .inl (.inr known)
      · exact .inr copy

end

theorem arrays_copied (value : Value) : (heap.copied value).2.arrays = heap.arrays := by
  cases value with
  | object =>
    unfold copied
    simp only
    split <;> rfl
  | _ => rfl

theorem arrays_copies (value : Value) (count : Nat) (items : Array Value) :
    (heap.copies value count items).2.arrays = heap.arrays := by
  induction count generalizing heap items with
  | zero => rfl
  | succ _ ih => exact (ih _ _).trans (heap.arrays_copied value)

theorem unplaced_of_mem_copies {heap : Heap} (unplaced : value.Unplaced) {items : Array Value}
    (each : ∀ item, item ∈ items -> item.Unplaced) {item : Value}
    (member : item ∈ (heap.copies value count items).1) : item.Unplaced := by
  induction count generalizing heap items with
  | zero => exact each item member
  | succ _ ih =>
    refine ih ?_ member
    intro other isOther
    rcases Array.mem_push.mp isOther with known | rfl
    · exact each other known
    · cases value with
      | object ref =>
        cases ref with
        | place => exact unplaced.elim
        | closure => trivial
      | _ => trivial

theorem spares_newArray (heap : Heap) (elementType : TypeHash) (dimensions : List Nat)
    (fill : Value) :
    Spares (heap.newArray elementType dimensions fill) fun made =>
      heap.Change (· = fill) made.2 (· = .array made.1) ∧ made.1.index = heap.arrays.size
        ∧ made.1.index < made.2.arrays.size
        ∧ (fill.Unplaced -> ∀ position item, made.2.element? made.1 position = some item ->
          item.Unplaced) := by
  have counted : Spares (itemCount dimensions) fun _ => True := by
    unfold itemCount
    split
    · split
      · trivial
      · exact not_false
    · exact not_false
  refine counted.bind fun count _ => ?_
  have filled := heap.change_copies fill count #[]
  refine ⟨?_, ?_, ?_, ?_⟩
  · refine (filled.widen ?_).trans ?_
    · rintro value (same | member)
      · exact same
      · cases Array.not_mem_empty _ member
    · exact change_addArray _ fun _ isOn item member => isOn item (.inr member)
  · exact congrArg Array.size (heap.arrays_copies fill count #[])
  · exact Nat.lt_of_lt_of_eq .refl (Array.size_push _).symm
  · intro unplaced position item isItem
    have isThere := Option.bind_eq_some_iff.mp isItem
    rcases isThere with ⟨cell, isCell, isItem⟩
    cases Array.getElem?_push_size.symm.trans isCell
    exact unplaced_of_mem_copies unplaced (fun _ member => (Array.not_mem_empty _ member).elim)
      (Array.mem_of_getElem? isItem)

theorem spares_offset (cell : ArrayCell) (indices : List Int) :
    Spares (cell.offset indices) fun _ => True := by
  have walked (dimensions : List Nat) (position : Nat) (remaining : List Int) :
      Spares (ArrayCell.offsetFrom dimensions position remaining) fun _ => True := by
    fun_induction ArrayCell.offsetFrom dimensions position remaining with
    | case1 _ _ _ _ _ _ ih => exact ih
    | case2 => exact not_false
    | case3 => trivial
  unfold ArrayCell.offset
  split
  · exact walked _ _ _
  · exact not_false

theorem spares_getItem (heap : Heap) (ref : ArrayRef) (indices : List Int) :
    Spares ((heap.array ref).get indices) fun item => heap.Closed -> item.IsOn heap := by
  refine (spares_offset _ indices).bind fun position _ closed => ?_
  by_cases inside : position < (heap.array ref).items.size
  · rw [Array.getD_eq_getD_getElem?, Array.getElem?_eq_getElem inside]
    exact closed.array_items ref (Array.getElem_mem inside)
  · rw [Array.getD_eq_getD_getElem?, Array.getElem?_eq_none (Nat.le_of_not_lt inside)]
    trivial

theorem spares_setItem (ref : ArrayRef) (indices : List Int) (value : Value) :
    Spares (heap.setItem ref indices value) fun _ => True :=
  (spares_offset _ indices).bind fun _ _ => trivial

/-- An item that was replaced stands at a position that the indices have. -/
theorem setItem_ok {heap : Heap} (stores : heap.setItem ref indices value = .ok after) :
    ∃ position,
      (heap.array ref).offset indices = .ok position ∧ after = { heap with
        arrays := heap.arrays.modify ref.index fun cell =>
          { cell with items := cell.items.setIfInBounds position value } } := by
  unfold setItem at stores
  cases found : (heap.array ref).offset indices with rw [found] at stores
  | error => cases stores
  | ok position =>
    cases stores
    exact ⟨position, rfl, rfl⟩

theorem spares_payload (heap : Heap) (kind : PayloadKind) (ref : ObjectRef) :
    Spares (heap.payload kind ref) fun payload =>
      heap.Closed -> ∀ slot, slot ∈ payload.slots -> slot.2.IsOn heap := by
  unfold payload
  simp only
  split
  · exact fun closed slot => closed.payload_slots ref
  · exact not_false

end Heap

/-! ## Shapes -/

namespace Shape

private theorem change_readAll {reading : Value -> Heap -> Except ConversionError (Value × Heap)}
    (each : ∀ value heap result, reading value heap = .ok result ->
      heap.Change (· = value) result.2 (· = result.1))
    (items : List Value) (found : Array Value) (heap : Heap) (result : Array Value × Heap)
    (runs : readAll reading items found heap = .ok result) :
    heap.Change (fun value => value ∈ items ∨ value ∈ found) result.2 (· ∈ result.1) := by
  induction items generalizing found heap with
  | nil =>
    cases runs
    exact .handed fun _ member => .inl (.inr member)
  | cons item rest ih =>
    rw [readAll] at runs
    cases first : reading item heap with rw [first] at runs
    | error => cases runs
    | ok read =>
      have head : heap.Change (fun value => value ∈ item :: rest ∨ value ∈ found) read.2
          (· = read.1) :=
        (each item heap read first).widen (fun _ same => .inl (same ▸ .head _))
      refine head.trans ((ih _ _ runs).widen ?_)
      rintro value (inRest | inFound)
      · exact .inl (.inl (List.mem_cons_of_mem item inRest))
      · rcases Array.mem_push.mp inFound with known | same
        · exact .inl (.inr known)
        · exact .inr same

private theorem change_scalar {α : Type} {reading : Except ConversionError α} {wrap : α -> Value}
    {heap : Heap} {result : Value × Heap} {given : Value -> Prop}
    (runs : (reading >>= fun value => pure (wrap value, heap)) = .ok result)
    (unplaced : ∀ value, (wrap value).Unplaced) :
    heap.Change given result.2 (· = result.1) := by
  cases reading with
  | error => cases runs
  | ok value =>
    cases runs
    exact .handed fun _ same => .inr (same ▸ unplaced value)

/-- Reading in a shape makes new arrays at most. -/
theorem change_read (shape : Shape) (value : Value) (heap : Heap) (result : Value × Heap)
    (runs : shape.read value heap = .ok result) :
    heap.Change (· = value) result.2 (· = result.1) := by
  induction shape generalizing value heap result with
  | int | int64 | uint | uint64 | float | double | bool | string | function =>
    exact change_scalar runs fun _ => trivial
  | unit =>
    cases value with
    | void =>
      cases runs
      exact .handed fun _ => .inl
    | _ => cases runs
  | any =>
    cases runs
    exact .handed fun _ => .inl
  | optional _ ih =>
    cases value with
    | null =>
      cases runs
      exact .handed fun _ => .inl
    | _ => exact ih _ _ _ runs
  | vector item ih =>
    cases value with
    | array ref =>
      rw [read] at runs
      cases all : readAll item.read (heap.array ref).items.toList #[] heap with rw [all] at runs
      | error => cases runs
      | ok items =>
        cases runs
        have reads := change_readAll ih _ _ _ _ all
        have stored : heap.Change (· = .array ref) heap fun value =>
            value ∈ (heap.array ref).items.toList ∨ value ∈ #[] := by
          refine .still fun closed _ value member => ?_
          rcases member with inItems | impossible
          · exact closed.array_items ref (Array.mem_toList_iff.mp inItems)
          · cases Array.not_mem_empty _ impossible
        refine (stored.trans (reads.widen (fun _ => .inr))).trans ?_
        exact Heap.change_addArray _ fun _ isOn item member => isOn item (.inr member)
    | _ => cases runs

theorem change_defaultValue (shape : Shape) (heap : Heap) (given : Value -> Prop) :
    heap.Change given (shape.defaultValue heap).2 (· = (shape.defaultValue heap).1) := by
  cases shape with
  | vector => exact Heap.change_addArray _ fun _ _ _ member => (Array.not_mem_empty _ member).elim
  | _ =>
    refine .handed ?_
    rintro _ rfl
    exact .inr trivial

end Shape

/-! ## Members and actions -/

theorem Slots.mem_of_get? (found : slots.get? slot = some value) : (slot, value) ∈ slots := by
  induction slots with
  | nil => cases found
  | cons head _ ih =>
    rw [get?] at found
    split at found
    · next same =>
      cases found
      exact same ▸ .head _
    · exact .tail _ (ih found)

theorem Slots.mem_put
    (member : entry ∈ slots.put slot value) : entry ∈ slots ∨ entry.2 = value := by
  induction slots with
  | nil =>
    cases List.mem_singleton.mp member
    exact .inr rfl
  | cons head _ ih =>
    rw [put] at member
    split at member
    · rcases List.mem_cons.mp member with rfl | later
      · exact .inr rfl
      · exact .inl (.tail _ later)
    · rcases List.mem_cons.mp member with rfl | later
      · exact .inl (.head _)
      · exact (ih later).imp_left (.tail _)

theorem Payload.mem_store {payload : Payload} (member : entry ∈ (payload.store slot value).slots) :
    entry ∈ payload.slots ∨ entry.2 = value := by
  cases payload with
  | record => exact Slots.mem_put member
  | _ => exact .inl member

namespace SlotAccess

theorem change_load (access : SlotAccess) (payload : Payload) (heap : Heap)
    (slots : heap.Closed -> ∀ slot, slot ∈ payload.slots -> slot.2.IsOn heap) :
    heap.Change (access.fixed = some ·) (access.load payload heap).2
      (· = (access.load payload heap).1) := by
  unfold load
  split
  · next value isFixed => exact .handed fun _ same => .inl (same ▸ isFixed)
  · split
    · exact Shape.change_defaultValue _ heap _
    · next value found =>
      split
      · next result read =>
        have stored : heap.Change (access.fixed = some ·) heap (· = value) := by
          refine .still fun closed _ other same => ?_
          rw [same]
          exact slots closed (access.slot, value) (Slots.mem_of_get? found)
        exact stored.trans ((Shape.change_read _ _ _ result read).widen (fun _ => .inr))
      · exact Shape.change_defaultValue _ heap _

theorem spares_get (access : SlotAccess) (heap : Heap) (ref : ObjectRef) :
    Spares (access.get heap ref) fun result =>
      heap.Change (access.fixed = some ·) result.2 (· = result.1) :=
  (heap.spares_payload _ ref).bind fun payload => access.change_load payload heap

/-- A value stored in a slot of a payload that was found on the heap. -/
theorem change_store {heap : Heap} (ref : ObjectRef) {payload : Payload} {slot : String}
    {value : Value} (isGiven : given value)
    (slots : heap.Closed -> ∀ slot, slot ∈ payload.slots -> slot.2.IsOn heap) :
    heap.Change given (heap.setPayload ref (payload.store slot value)) fun _ => False := by
  refine Heap.change_setPayload ref _ fun closed isOn entry member => ?_
  rcases Payload.mem_store member with known | same
  · exact slots closed entry known
  · exact same ▸ isOn value isGiven

theorem spares_set (access : SlotAccess) (heap : Heap) (ref : ObjectRef) (value : Value) :
    Spares (access.set heap ref value) fun after =>
      heap.Change (· = value) after fun _ => False := by
  unfold set
  cases reading : access.shape.read value heap with
  | error => exact not_false
  | ok result =>
    rcases result with ⟨stored, after⟩
    have read := Shape.change_read _ _ _ _ reading
    exact (after.spares_payload _ ref).bind fun payload slots =>
      read.trans (change_store ref (.inr rfl) slots)

end SlotAccess

namespace HostCall

/-- The values that a host function is called with. -/
def Has (call : HostCall) (value : Value) : Prop :=
  call.receiver = some value ∨ value ∈ call.arguments

variable (call : HostCall)

include call

theorem spares_argument (index : Nat) : Spares (call.argument index) call.Has := by
  unfold argument
  split
  · next value found => exact .inr (List.mem_of_getElem? found)
  · exact not_false

theorem spares_read {α : Type} {Good : α -> Prop} (index : Nat)
    {reading : Value -> Except ConversionError α}
    (each : ∀ value result, call.Has value -> reading value = .ok result -> Good result) :
    Spares (call.read index reading) Good := by
  refine (call.spares_argument index).bind fun value has => ?_
  cases read : reading value with
  | ok result => exact each value result has read
  | error => exact not_false

theorem spares_readShape (index : Nat) (shape : Shape) (heap : Heap) :
    Spares (call.readShape index shape heap) fun result =>
      heap.Change call.Has result.2 (· = result.1) :=
  call.spares_read index fun value result has read =>
    (Shape.change_read shape value heap result read).widen (fun _ same => same ▸ has)

theorem spares_receiverValue : Spares call.receiverValue call.Has := by
  unfold receiverValue
  split
  · next value found => exact .inl found
  · exact not_false

theorem spares_receiverPayload (kind : PayloadKind) (heap : Heap) :
    Spares (call.receiverPayload kind heap) fun found =>
      heap.Closed -> ∀ slot, slot ∈ found.2.slots -> slot.2.IsOn heap := by
  refine call.spares_receiverValue.bind fun value _ => ?_
  cases value with
  | object ref => exact (heap.spares_payload kind ref).bind fun _ slots => slots
  | _ => exact not_false

end HostCall

namespace HostAction

theorem spares_readSlots (call : HostCall) (index : Nat) (shapes : List (String × Shape))
    (slots : Slots) (heap : Heap) :
    Spares (readSlots call index shapes slots heap) fun result =>
      heap.Change (fun value => call.Has value ∨ ∃ slot, (slot, value) ∈ slots) result.2
        fun value => ∃ slot, (slot, value) ∈ result.1 := by
  induction shapes generalizing index slots heap with
  | nil => exact .handed fun _ member => .inl (.inr member)
  | cons head _ ih =>
    refine (call.spares_readShape index head.2 heap).bind fun read change => ?_
    refine (ih (index + 1) _ read.2).mono fun _ later => ?_
    refine (change.widen (fun _ => .inl)).trans (later.widen ?_)
    rintro _ (has | ⟨slot, member⟩)
    · exact .inl (.inl has)
    · rcases Slots.mem_put member with known | same
      · exact .inl (.inr ⟨slot, known⟩)
      · exact .inr same

theorem spares_constructedType (call : HostCall) (owner : String) :
    Spares (constructedType call owner) fun _ => True := by
  unfold constructedType
  split
  · trivial
  · exact not_false

theorem spares_format (value : Value) (alignment : Option Int32) (format : Option String) :
    Spares (Format.value value alignment format) fun _ => True := by
  unfold Format.value
  simp only
  split
  · trivial
  · exact not_false

theorem change_text {heap : Heap} (ref : ObjectRef) (content : String) {value : Value}
    (unplaced : value.Unplaced) :
    heap.Change given (heap.setPayload ref (.text content)) (· = value) := by
  have change : heap.Change given (heap.setPayload ref (.text content)) fun _ => False :=
    Heap.change_setPayload ref _ fun _ _ _ member => (List.not_mem_nil member).elim
  exact change.trans (.handed fun _ same => .inr (same ▸ unplaced))

theorem spares_append (call : HostCall) (heap : Heap) (aligned formatted : Bool) :
    Spares (append call heap aligned formatted) fun result =>
      heap.Change call.Has result.2 (· = result.1) := by
  have present {α : Type} (index : Nat) (reading : Value -> Except ConversionError α) :
      Spares (some <$> call.read index reading) fun _ => True := by
    have spares : Spares (call.read index reading) fun _ => True :=
      call.spares_read index fun _ _ _ _ => trivial
    cases read : call.read index reading with
    | ok => trivial
    | error =>
      rw [read] at spares
      exact spares
  have finish (alignment : Option Int32) (format : Option String) : Spares (do
        let text ← Format.value (← call.argument 0) alignment format
        let receiver ← call.receiverPayload .text heap
        return (Value.void, heap.setPayload receiver.1 (.text (receiver.2.content ++ text))))
      fun result => heap.Change call.Has result.2 (· = result.1) := by
    refine (call.spares_argument 0).bind fun value _ => ?_
    refine (spares_format value alignment format).bind fun text _ => ?_
    exact (call.spares_receiverPayload .text heap).bind fun _ _ => change_text _ _ trivial
  cases aligned with
  | false =>
    cases formatted with
    | false => exact finish none none
    | true => exact (present 1 _).bind fun format _ => finish none format
  | true =>
    refine (present 1 _).bind fun alignment _ => ?_
    cases formatted with
    | false => exact finish alignment none
    | true => exact (present 2 _).bind fun format _ => finish alignment format

/-- An action that is not native ends at once, with a change of the heap by what
it is called with and what it brings along, and it does not blame the code. -/
theorem perform_of_not_native (natives : Natives) (action : HostAction) (call : HostCall)
    (heap : Heap) :
    (∃ name captured, action = .native name captured)
      ∨ ∃ result, action.perform natives call heap = .of heap result
        ∧ Spares result fun made =>
          heap.Change (fun value => call.Has value ∨ action.Fixes value) made.2 (· = made.1) := by
  cases action with
  | native name captured => exact .inl ⟨name, captured, rfl⟩
  | construct owner _ _ slots =>
    refine .inr ⟨_, rfl, ?_⟩
    refine (spares_constructedType call owner).bind fun type _ => ?_
    refine (spares_readSlots call 0 slots [] heap).bind fun read change => ?_
    refine (change.widen ?_).trans (Heap.change_addObject _ ?_)
    · rintro _ (has | ⟨slot, impossible⟩)
      · exact .inl has
      · cases impossible
    · exact fun _ isOn slot member => isOn slot.2 (.inr ⟨slot.1, member⟩)
  | getMember access =>
    refine .inr ⟨_, rfl, ?_⟩
    refine (call.spares_receiverPayload access.kind heap).bind fun found slots => ?_
    exact (access.change_load found.2 heap slots).widen (fun _ => .inr)
  | setMember access =>
    refine .inr ⟨_, rfl, ?_⟩
    refine (call.spares_readShape 0 access.shape heap).bind fun read change => ?_
    refine (call.spares_receiverPayload access.kind read.2).bind fun found slots => ?_
    refine (change.widen (fun _ => .inl)).trans ?_
    exact (SlotAccess.change_store found.1 (.inr rfl) slots).trans
      (.handed fun _ same => .inr (same ▸ trivial))
  | newText owner =>
    refine .inr ⟨_, rfl, ?_⟩
    refine (spares_constructedType call owner).bind fun type _ => ?_
    refine (call.spares_read 0 fun _ _ _ _ => trivial).bind fun _ (_ : True) => ?_
    refine (call.spares_read 1 fun _ _ _ _ => trivial).bind fun _ (_ : True) => ?_
    exact Heap.change_addObject _ fun _ _ _ member => (List.not_mem_nil member).elim
  | appendLiteral =>
    refine .inr ⟨_, rfl, ?_⟩
    refine (call.spares_read 0 fun _ _ _ _ => trivial).bind fun _ (_ : True) => ?_
    exact (call.spares_receiverPayload .text heap).bind fun _ _ => change_text _ _ trivial
  | appendFormatted aligned formatted =>
    exact .inr ⟨_, rfl, (spares_append call heap aligned formatted).mono fun _ change =>
      change.widen (fun _ => .inl)⟩
  | takeText =>
    refine .inr ⟨_, rfl, ?_⟩
    exact (call.spares_receiverPayload .text heap).bind fun _ _ => change_text _ _ trivial

end HostAction

/-! ## Laws of native functions -/

/-- What any host function may do to a heap.  It makes objects, arrays and
functions, and it writes to objects and arrays.  Objects stay value objects or
others, functions stay what they are, new ones have no code but that of known
ones, and no anonymous function is made. -/
structure Heap.Admits (before after : Heap) : Prop where
  objects : before.objects.size ≤ after.objects.size
  kinds : ∀ index, index < before.objects.size ->
    (after.object (.place index)).isValue = (before.object (.place index)).isValue
  functions : ∀ (index : Nat) cell, before.functions[index]? = some cell ->
    after.functions[index]? = some cell
  code : ∀ cell method, cell ∈ after.functions -> cell.body = .compiled method ->
    ∃ known, known ∈ before.functions ∧ known.body = .compiled method
  delegates : after.delegates = before.delegates

theorem Heap.Admits.refl (heap : Heap) : heap.Admits heap where
  objects := Nat.le_refl _
  kinds := fun _ _ => rfl
  functions := fun _ _ found => found
  code := fun cell _ member isBody => ⟨cell, member, isBody⟩
  delegates := rfl

theorem Heap.Change.admits {before after : Heap} (change : before.Change given after made) :
    before.Admits after where
  objects := change.objects
  kinds := change.kinds
  functions := by
    rw [change.functions]
    exact fun _ _ found => found
  code := by
    rw [change.functions]
    exact fun cell _ member isBody => ⟨cell, member, isBody⟩
  delegates := change.delegates

namespace HostStep

/-- A host function does to the heap what is admitted, and fails with failures
that are excused, if only such failures are answered to it. -/
def Orderly (Excused : RuntimeError -> Prop) : HostStep -> Heap -> Prop
  | ended result after, before =>
    before.Admits after ∧ ∀ error, result = .error error -> Excused error
  | calling _ _ after resume, before => before.Admits after ∧ ∀ answer later,
      (∀ error, answer = .error error -> Excused error) ->
        (resume answer later).Orderly Excused later

/-- A host function makes up no references, if the heap on which it goes on and
the value that is answered to it have none. -/
def Grounded : HostStep -> Prop
  | ended result after => after.Closed ∧ ∀ value, result = .ok value -> value.IsOn after
  | calling _ arguments after resume =>
    (after.Closed ∧ ∀ value, value ∈ arguments -> value.IsOn after)
      ∧ ∀ answer (later : Heap), after.objects.size ≤ later.objects.size -> later.Closed ->
        (∀ value, answer = .ok value -> value.IsOn later) -> (resume answer later).Grounded

end HostStep

namespace Natives

variable (natives : Natives)

/-- Native functions that keep to what a host function may do, and that blame
the code only with failures that code had. -/
def Orderly : Prop := ∀ (Excused : RuntimeError -> Prop) name captured call heap,
  (∀ error : RuntimeError, ¬ error.BlamesCode -> Excused error) ->
    (natives name captured call heap).Orderly Excused heap

/-- Native functions that refer to what they are called with, bring along, find
on the heap or make, and to nothing else. -/
def Grounded : Prop := ∀ name captured call heap, Heap.Closed heap ->
  (∀ value, call.Has value ∨ value ∈ captured -> value.IsOn heap) ->
    (natives name captured call heap).Grounded

theorem orderly_silent : silent.Orderly := fun _ _ _ _ heap _ => ⟨.refl heap, nofun⟩

theorem grounded_silent : silent.Grounded := by
  refine fun _ _ _ _ closed _ => ⟨closed, ?_⟩
  rintro _ ⟨⟩
  trivial

end Natives

namespace HostAction

variable {natives : Natives} {heap : Heap}

theorem orderly_perform {Excused : RuntimeError -> Prop} (orderly : natives.Orderly)
    (excused : ∀ error : RuntimeError, ¬ error.BlamesCode -> Excused error)
    (action : HostAction) (call : HostCall) (heap : Heap) :
    (action.perform natives call heap).Orderly Excused heap := by
  rcases action.perform_of_not_native natives call heap with ⟨name, captured, rfl⟩ | ⟨result, isStep, spares⟩
  · exact orderly Excused name captured call heap excused
  · rw [isStep]
    cases result with
    | ok => exact ⟨spares.admits, nofun⟩
    | error =>
      refine ⟨.refl heap, ?_⟩
      rintro _ ⟨⟩
      exact excused _ spares

theorem grounded_perform (grounded : natives.Grounded) {action : HostAction} {call : HostCall}
    (closed : heap.Closed)
    (isOn : ∀ value, call.Has value ∨ action.Fixes value -> value.IsOn heap) :
    (action.perform natives call heap).Grounded := by
  rcases action.perform_of_not_native natives call heap with ⟨name, captured, rfl⟩ | ⟨result, isStep, spares⟩
  · exact grounded name captured call heap closed isOn
  · rw [isStep]
    cases result with
    | error => exact ⟨closed, nofun⟩
    | ok =>
      refine (spares.closed closed isOn).imp_right fun made value same => ?_
      exact made value (Except.ok.inj same).symm

end HostAction

/-! ## Steps of a machine -/

/-- The compiled method that a callee runs, with its receiver and arguments. -/
inductive Callee.Enters (heap : Heap) :
    Callee -> CompiledMethod -> Option Value -> List Value -> Prop
  | method (method : CompiledMethod) (receiver : Option Value) (arguments : List Value) :
      Enters heap (.method method receiver arguments) method receiver arguments
  | function {ref : FunctionRef} {method : CompiledMethod} (arguments : List Value)
      (known : heap.function ref ∈ heap.functions)
      (isBody : (heap.function ref).body = .compiled method) :
      Enters heap (.function ref arguments) method (heap.function ref).target arguments

/-- The host function that a callee performs, and whether the call counts. -/
inductive Callee.Performs (heap : Heap) : Callee -> HostFunction -> HostCall -> Bool -> Prop
  | host (function : HostFunction) (call : HostCall) :
      Performs heap (.host function call) function call false
  | function {ref : FunctionRef} {native : HostFunction} (arguments : List Value)
      (known : heap.function ref ∈ heap.functions)
      (isBody : (heap.function ref).body = .host native) :
      Performs heap (.function ref arguments) native
        { receiver := (heap.function ref).target, arguments } true

/-- All that a step can do: execute an instruction, hand over a result, refuse a
call for no fault of the code, enter a compiled method or perform a host
function. -/
theorem Machine.step_rule {control : Control} {waiting : List Activation} {depth : Nat}
    {heap : Heap} {Holds : Progress -> Prop}
    (executed : ∀ frame, control = .instruction frame ->
      Holds (instruction host frame waiting depth heap))
    (given : ∀ result, control = .give result -> Holds (give result waiting depth heap))
    (refused : ∀ callee, control = .call callee -> ∀ error : RuntimeError,
      ¬ error.BlamesCode -> Holds (refuse error waiting depth heap))
    (entered : ∀ callee method receiver arguments frame after, control = .call callee ->
      callee.Enters heap method receiver arguments ->
      Frame.enter method receiver arguments heap = .ok (frame, after) ->
        Holds (.running ⟨.instruction frame, waiting, depth + 1, after⟩))
    (performed : ∀ callee function call counts, control = .call callee ->
      callee.Performs heap function call counts ->
        Holds (callHost host function call counts waiting (depth + counts.toNat) heap)) :
    Holds (step host ⟨control, waiting, depth, heap⟩) := by
  have onMethod {callee : Callee} {method : CompiledMethod} {receiver : Option Value}
      {arguments : List Value} (isCall : control = .call callee)
      (enters : callee.Enters heap method receiver arguments) :
      Holds (callMethod host method receiver arguments waiting depth heap) := by
    unfold callMethod
    split
    · exact refused callee isCall _ not_false
    · by_cases count : arguments.length = method.parameterCount
      · have isEntered : Frame.enter method receiver arguments heap = .ok _ := if_pos count
        rw [isEntered]
        exact entered callee method receiver arguments _ _ isCall enters isEntered
      · rw [show Frame.enter method receiver arguments heap = .error _ from if_neg count]
        exact refused callee isCall _ not_false
  cases control with
  | instruction frame => exact executed frame rfl
  | give result => exact given result rfl
  | call callee =>
    cases callee with
    | host function call => exact performed _ function call false rfl (.host function call)
    | method method receiver arguments => exact onMethod rfl (.method method receiver arguments)
    | function ref arguments =>
      -- A function that is not there has no body to run.
      have known : heap.function ref ∈ heap.functions
          ∨ ∃ name, (heap.function ref).body = .foreign name := by
        unfold Heap.function
        rw [Array.getD_eq_getD_getElem?]
        cases found : heap.functions[ref.index]? with
        | none => exact .inr ⟨_, rfl⟩
        | some => exact .inl (Array.mem_of_getElem? found)
      unfold step callFunction
      simp only
      split
      · exact refused _ rfl _ not_false
      · rcases known with known | ⟨name, isBody⟩
        · cases isBody : (heap.function ref).body with
          | host function =>
            simp only
            split
            · exact refused _ rfl _ not_false
            · exact performed _ function _ true rfl (.function arguments known isBody)
          | compiled method => exact onMethod rfl (.function arguments known isBody)
          | foreign => exact refused _ rfl _ not_false
        · rw [isBody]
          exact refused _ rfl _ not_false

end OpMachine
