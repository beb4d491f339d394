import OpMachine.Proofs.Materialization
import OpMachine.Proofs.StackDiscipline
import OpMachine.Proofs.ValueObjects

namespace OpMachine

/-!
# Value objects that members hold

A store to a field keeps a copy of a value object, so that nothing done to the
object later is seen through the field.  A store to a property hands the object
itself to the setter.  A setter that keeps it leaves the property and the place
that the object came from with one object, and each shows what is done through
the other.
-/

/-! ## What a store does -/

/-- The store of a value in a member. -/
def MemberAccess.storeInstruction (access : MemberAccess) (index : UInt16) : Instruction :=
  .withWord access.storeOpcode index access.operandSize_storeOpcode

/-- A store of a value in a member of an object.  A field of the object is set to
the value as it is stored, a property is set by a call of its setter on the
object. -/
inductive MemberAccess.StoresIn (catalog : Catalog) (object value : Value) (heap : Heap) :
    MemberAccess -> Continuation -> Heap -> Prop
  | field {hash : TypeHash} {field : FieldEntry} {ref : ObjectRef} {after : Heap}
      (found : catalog.field? hash = some field) (isObject : object = .object ref)
      (stores : field.access.set (heap.copied value).2 ref (heap.copied value).1 = .ok after) :
      StoresIn catalog object value heap (.field hash) .next after
  | property {hash : TypeHash} {isVirtual isReadable isWritable : Bool}
      {property chosen : PropertyEntry} {setter : MemberSetter}
      (found : catalog.property? hash = some property)
      (isChosen : chosen = property
        ∨ ∃ type, chosen = catalog.overridingProperty type property)
      (isSetter : chosen.setter = some setter) :
      StoresIn catalog object value heap (.property hash isVirtual isReadable isWritable)
        (.call (.host setter.function { receiver := some object, arguments := [value] }) false) heap

namespace Execute

variable {catalog : Catalog} {frame : Frame} {heap : Heap} {continuation : Continuation}
  {after : Running} {index : UInt16} {object value : Value} {rest : List Value} {α : Type}
  {before : Running} {member : String}

theorem found_ok {hash : TypeHash} {after : Running}
    (runs : found hash answer before = .ok entry after) :
    answer = some entry ∧ after = before := by
  cases answer with
  | none => cases runs
  | some =>
    cases runs
    exact ⟨rfl, rfl⟩

theorem expectObject_ok {value : Value} {after : Running}
    (runs : expectObject value member before = .ok ref after) :
    value = .object ref ∧ after = before := by
  cases value <;> cases runs
  exact ⟨rfl, rfl⟩

theorem check_ok {after : Running} (runs : check result before = .ok answer after) :
    result = .ok answer ∧ after = before := by
  cases result with
  | error => cases runs
  | ok =>
    cases runs
    exact ⟨rfl, rfl⟩

theorem requireReceiver_ok {value : Value} {after : Running}
    (runs : requireReceiver value member before = .ok () after) : after = before := by
  cases value <;> cases runs <;> rfl

theorem dispatched_ok {after : Running}
    (runs : dispatched catalog isVirtual receiver property before = .ok chosen after) :
    (chosen = property ∨ ∃ type, chosen = catalog.overridingProperty type property)
      ∧ after = before := by
  rw [dispatched, bind_of_ok (show heap before = .ok before.heap before from rfl)] at runs
  cases typed : before.heap.runtimeType receiver with rw [typed] at runs
  | none =>
    cases runs
    exact ⟨.inl rfl, rfl⟩
  | some type =>
    cases runs
    cases isVirtual with
    | true => exact ⟨.inr ⟨type, rfl⟩, rfl⟩
    | false => exact ⟨.inl rfl, rfl⟩

/-- The instruction that stores in a member of an object. -/
theorem storesIn_of_ok {access : MemberAccess} (holds : frame.Faces (access.storeInstruction index))
    (known : frame.method.pool.get? index.toNat = some (.hash access.hash))
    (onInstance : access.isStatic = false) (isStack : frame.operands = value :: object :: rest)
    (executes : Execute.instruction catalog ⟨frame, heap⟩ = .ok continuation after) :
    access.StoresIn catalog object value heap continuation after.heap := by
  rw [instruction_of_holds holds] at executes
  have read : readHash ⟨frame.past 1, heap⟩ = .ok access.hash ⟨frame.past 3, heap⟩ :=
    readHash_run holds.2 known
  have popped : pop ⟨frame.past 3, heap⟩ = _ := pop_run isStack
  have copied : popCopied ⟨frame.past 3, heap⟩ = _ :=
    popCopied_eq isStack
  cases access with
  | staticProperty => cases onInstance
  | field =>
    change setField catalog _ = _ at executes
    rw [setField, bind_of_ok read] at executes
    obtain ⟨field, _, found, executes⟩ := ok_of_bind executes
    obtain ⟨isFound, rfl⟩ := found_ok found
    rw [bind_of_ok copied, bind_of_ok (pop_run rfl)] at executes
    obtain ⟨_, _, expected, executes⟩ := ok_of_bind executes
    obtain ⟨isObject, rfl⟩ := expectObject_ok expected
    obtain ⟨_, _, got, executes⟩ := ok_of_bind executes
    cases got
    obtain ⟨_, _, checked, executes⟩ := ok_of_bind executes
    obtain ⟨stores, rfl⟩ := check_ok checked
    cases executes
    exact .field isFound isObject stores
  | property _ isVirtual =>
    have executes : setProperty catalog isVirtual
        ⟨frame.past 1, heap⟩ = .ok continuation after := by
      cases isVirtual <;> exact executes
    rw [setProperty, bind_of_ok read] at executes
    obtain ⟨property, _, found, executes⟩ := ok_of_bind executes
    obtain ⟨isFound, rfl⟩ := found_ok found
    rw [bind_of_ok popped, bind_of_ok (pop_run rfl)] at executes
    obtain ⟨_, _, required, executes⟩ := ok_of_bind executes
    cases requireReceiver_ok required
    obtain ⟨chosen, _, dispatches, executes⟩ := ok_of_bind executes
    obtain ⟨isChosen, rfl⟩ := dispatched_ok dispatches
    unfold writeProperty at executes
    cases isSetter : chosen.setter with rw [isSetter] at executes
    | none => cases executes
    | some =>
      cases executes
      exact .property isFound isChosen isSetter

end Execute

/-! ## What a member shows -/

/-- The member holds what is stored in it, as it is. -/
def SlotAccess.Keeps (access : SlotAccess) : Prop := access.shape = .any ∧ access.fixed = none

/-- What is seen through a member of an object. -/
def SlotAccess.seen (access : SlotAccess) (heap : Heap) (holder : ObjectRef) : Option ObjectCell :=
  heap.seen (access.load (heap.object holder).payload heap).1

/-- Of the objects that lay on a heap, one alone is no longer as it was. -/
def Heap.ChangesOnly (changed : ObjectRef) (before after : Heap) : Prop :=
  ∀ ref, ref ≠ changed -> ref.IsPlaced before ->
    ref.IsPlaced after ∧ after.object ref = before.object ref

section

variable {original holder : ObjectRef} {heap before after : Heap} {type : TypeHash}
  {kind : PayloadKind} {isValue : Bool} {slots : Slots}

theorem ObjectRef.IsPlaced.ne_fresh {ref : ObjectRef} (placed : ref.IsPlaced heap) :
    ref ≠ .place heap.objects.size := by
  obtain ⟨index, rfl, inside⟩ := placed
  exact fun same => Nat.ne_of_lt inside (place.inj same)

theorem Heap.changesOnly_addObject (heap : Heap) (cell : ObjectCell) :
    heap.ChangesOnly (.place heap.objects.size) (heap.addObject cell).2 := by
  rintro ref - ⟨index, rfl, inside⟩
  refine ⟨⟨index, rfl, ?_⟩, ?_⟩
  · rw [addObject, Array.size_push]
    exact Nat.lt_succ_of_lt inside
  · simp only [object, addObject, Array.getD_eq_getD_getElem?, Array.getElem?_push,
      if_neg (Nat.ne_of_lt inside)]

namespace MemberStore.Stores

variable {store : MemberStore} {value : Value}

theorem changesOnly (stores : store.Stores value holder before after) :
    before.ChangesOnly holder after := by
  intro ref other placed
  obtain ⟨_, _, reads, rfl⟩ := stores
  have objects := Shape.objects_read _ reads
  refine ⟨(placed.of_size (congrArg Array.size objects)).of_size (Heap.size_setPayload ..), ?_⟩
  rw [Heap.object_setPayload_of_ne _ other.symm, Heap.object_eq_of_objects objects]

/-- A member shows the value that was stored in it, whatever becomes of another
object. -/
theorem seen (stores : store.Stores value holder before after) (keeps : store.access.Keeps)
    (isRecord : before.HasRecord holder type kind isValue slots) (other : holder ≠ original)
    (changes : after.ChangesOnly original later) :
    store.access.seen later holder = later.seen value := by
  obtain ⟨left, isLeft, _, _, reads, found⟩ := stores.record isRecord
  rw [keeps.1] at reads
  cases reads
  rw [SlotAccess.seen, (changes holder other isLeft.placed).2, isLeft.isObject, SlotAccess.load,
    keeps.2]
  simp only [Payload.slots, found, keeps.1]
  rfl

end MemberStore.Stores

namespace Execute

variable {catalog : Catalog} {frame : Frame} {continuation : Continuation} {after : Running}
  {index : UInt16} {rest : List Value} {access : MemberAccess}

/-- A field that a value object was stored in shows the object as it was then.
A property whose setter keeps the object shows the object as it is. -/
theorem store_detaches (holds : frame.Faces (access.storeInstruction index))
    (known : frame.method.pool.get? index.toNat = some (.hash access.hash))
    (onInstance : access.isStatic = false)
    (isStack : frame.operands = .object original :: .object holder :: rest)
    (placed : original.IsPlaced heap) (duplicates : (heap.object original).isValue = true)
    (isRecord : heap.HasRecord holder type kind isValue slots) (other : holder ≠ original)
    (executes : Execute.instruction catalog ⟨frame, heap⟩ = .ok continuation after) :
    (∃ hash field, access = .field hash
      ∧ catalog.field? hash = some field ∧ continuation = .next
      ∧ (field.access.Keeps -> ∀ later, after.heap.ChangesOnly original later ->
        field.access.seen later holder = some (heap.object original)))
    ∨ (∀ hash, access ≠ .field hash) ∧ ∃ setter : MemberSetter, ∃ call,
      continuation = .call (.host setter.function call) false
      ∧ call.arguments = [.object original] ∧ ∀ natives answer kept, setter.access.Keeps ->
        setter.function.action.perform natives call after.heap = .ended (.ok answer) kept ->
        ∀ later, kept.ChangesOnly original later ->
          setter.access.seen later holder = some (later.object original) := by
  have stored := storesIn_of_ok holds known onInstance isStack executes
  cases stored with
  | field found isObject stores =>
    cases isObject
    refine .inl ⟨_, _, rfl, found, rfl, fun keeps later changes => ?_⟩
    have copied : heap.copied (.object original) = (.object (.place heap.objects.size),
        (heap.addObject (heap.object original)).2) := by
      simp only [Heap.copied, duplicates, if_true]
      rfl
    rw [copied] at stores
    have stores := SlotAccess.set_stores stores
    have ⟨isOn, same⟩ := heap.changesOnly_addObject (heap.object original) holder
      isRecord.placed.ne_fresh isRecord.placed
    have isHolder := Heap.HasRecord.mk isOn (same.trans isRecord.isObject)
    -- the copy lies where nothing was, so neither the store nor the change is to it
    have made : (ObjectRef.place heap.objects.size).IsPlaced
        (heap.addObject (heap.object original)).2 := by
      refine ⟨_, rfl, ?_⟩
      rw [Heap.addObject, Array.size_push]
      exact Nat.lt_succ_self _
    obtain ⟨isKept, kept⟩ := stores.changesOnly _ isRecord.placed.ne_fresh.symm made
    have shown := stores.seen keeps isHolder other changes
    rw [MemberStore.access] at shown
    rw [shown, Heap.seen, (changes _ placed.ne_fresh.symm isKept).2, kept]
    simp [Heap.object, Heap.addObject, Array.getD_eq_getD_getElem?]
  | property =>
    rename_i setter _ _ _
    refine .inr ⟨fun _ same => (by cases same), setter, _, rfl, rfl, ?_⟩
    intro natives answer kept keeps performed later changes
    exact (MemberSetter.perform_stores performed).seen keeps isRecord other changes

end Execute

end

namespace Holder

/-- The slot that a property reads and writes. -/
def slot : SlotAccess := { kind := ⟨"Holder"⟩, slot := "P", shape := .any }

def setter : MemberSetter := ⟨.empty, slot⟩

def catalog : Catalog where
  properties := ({} : Std.HashMap TypeHash PropertyEntry).insert .empty
    ⟨.empty, "P", .empty, .void, false, false, none, some setter⟩

def heap : Heap where
  objects := #[⟨.empty, .record ⟨"Point"⟩ [], true⟩, ⟨.empty, .record ⟨"Holder"⟩ [], false⟩]

/-- `holder.P = point;` -/
def frame : Frame where
  method := { Spin.keep with
    chunk := ⟨#[⟨Opcode.setProperty.toByte, 0⟩, ⟨0, 0⟩, ⟨0, 0⟩]⟩
    pool := { constants := #[.hash .empty] } }
  arguments := #[]
  locals := #[]
  operands := [.object (.place 0), .object (.place 1)]

def access : MemberAccess := .property .empty false true true

def call : HostCall where
  receiver := some (.object (.place 1))
  arguments := [.object (.place 0)]

theorem executes : Execute.instruction catalog ⟨frame, heap⟩
    = .ok (.call (.host setter.function call) false) ⟨frame.past 3 [], heap⟩ := by
  have found : catalog.property? .empty = some _ := Std.HashMap.getElem?_insert_self
  change (Execute.found .empty (catalog.property? .empty) >>= _) _ = _
  rw [found]
  rfl

end Holder

/-- The point is overwritten after it was stored, and the property shows that. -/
theorem holder_shows_change : ∃ answer kept,
    Execute.instruction Holder.catalog ⟨Holder.frame, Holder.heap⟩
        = .ok (.call (.host Holder.setter.function Holder.call) false)
          ⟨Holder.frame.past 3 [], Holder.heap⟩
      ∧ Holder.setter.function.action.perform .silent Holder.call Holder.heap
        = .ended (.ok answer) kept
      ∧ Holder.slot.seen (kept.setPayload (.place 0) (.text "new")) (.place 1)
        = some ⟨.empty, .text "new", true⟩ := by
  refine ⟨_, _, Holder.executes, rfl, ?_⟩
  have holds : Holder.frame.Faces (Holder.access.storeInstruction 0) := ⟨rfl, rfl, rfl, trivial⟩
  have isRecord : Holder.heap.HasRecord (.place 1) .empty ⟨"Holder"⟩ false [] :=
    ⟨⟨1, rfl, by decide⟩, rfl⟩
  have stored := Execute.store_detaches holds rfl rfl rfl ⟨0, rfl, by decide⟩ rfl isRecord
    (by decide) Holder.executes
  rcases stored with ⟨_, _, isField, _⟩ | ⟨_, ⟨id, access⟩, call, same, _, shows⟩
  · cases isField
  · cases same
    exact shows .silent _ _ ⟨rfl, rfl⟩ rfl _ fun ref other placed =>
      ⟨placed.of_size (Heap.size_setPayload ..), Heap.object_setPayload_of_ne _ other.symm _⟩

end OpMachine
