import OpMachine.Factory.Instance
import OpMachine.Proofs.BaseChains

namespace OpMachine

/-!
# Stores to members

A store to a field or through a setter reads the value in the shape of the
member and puts it into one slot of the record that the object holds.
`MemberStore.Stores` says this once, and all that follows about objects under
construction is taken from it.
-/

/-! ## Slots -/

theorem Slots.get?_put_self (slots : Slots) (slot : String) (value : Value) :
    (slots.put slot value).get? slot = some value := by
  induction slots with
  | nil => simp only [put, get?, if_true]
  | cons entry _ ih =>
    by_cases same : entry.1 = slot
    · simp only [put, get?, if_pos same]
    · simp only [put, get?, if_neg same, ih]

theorem Slots.get?_put_of_ne (slots : Slots) (different : slot ≠ other) (value : Value) :
    (slots.put slot value).get? other = slots.get? other := by
  induction slots with
  | nil => simp only [put, get?, if_neg different]
  | cons entry _ ih =>
    by_cases same : entry.1 = slot
    · have apart : ¬ entry.1 = other := same ▸ different
      simp only [put, get?, if_pos same, if_neg apart]
    · simp only [put, get?, if_neg same, ih]

/-! ## Objects on a heap -/

/-- An object that lies at a place of a heap. -/
def ObjectRef.IsPlaced (heap : Heap) (ref : ObjectRef) : Prop :=
  ∃ index, ref = .place index ∧ index < heap.objects.size

namespace Heap

theorem object_eq_of_objects {one other : Heap} (objects : other.objects = one.objects)
    (ref : ObjectRef) : other.object ref = one.object ref := by
  cases ref with
  | place => simp only [object, objects]
  | closure => rfl

theorem size_setPayload (heap : Heap) (ref : ObjectRef) (payload : Payload) :
    (heap.setPayload ref payload).objects.size = heap.objects.size := by
  cases ref with
  | place => exact Array.size_modify
  | closure => rfl

theorem object_setPayload {ref : ObjectRef} (placed : ref.IsPlaced heap) (payload : Payload) :
    (heap.setPayload ref payload).object ref = { heap.object ref with payload } := by
  rcases placed with ⟨index, rfl, inside⟩
  simp only [setPayload, object, Array.getD_eq_getD_getElem?, Array.getElem?_modify, if_true,
    Array.getElem?_eq_getElem inside, Option.map_some, Option.getD_some]

theorem object_setPayload_of_ne (heap : Heap) (different : ref ≠ other) (payload : Payload) :
    (heap.setPayload ref payload).object other = heap.object other := by
  cases ref with
  | closure => rfl
  | place index =>
    cases other with
    | closure => rfl
    | place place =>
      have elsewhere : index ≠ place := fun same => different (congrArg _ same)
      simp only [setPayload, object, Array.getD_eq_getD_getElem?, Array.getElem?_modify,
        if_neg elsewhere]

end Heap

variable {ref : ObjectRef} {call : HostCall}

theorem ObjectRef.IsPlaced.of_size (placed : ref.IsPlaced before)
    (size : after.objects.size = before.objects.size) : ref.IsPlaced after := by
  rcases placed with ⟨index, isPlace, inside⟩
  exact ⟨index, isPlace, size ▸ inside⟩

/-! ## Readings -/

namespace Shape

variable {value : Value} {heap : Heap} {result : Value × Heap}

theorem objects_read (shape : Shape)
    (runs : shape.read value heap = .ok result) : result.2.objects = heap.objects := by
  induction shape generalizing value heap result with
  | int | int64 | uint | uint64 | float | double | bool | string | function =>
    obtain ⟨_, _, given⟩ := Catalog.ok_of_bind runs
    cases given
    rfl
  | unit =>
    cases value with
    | void => cases runs; rfl
    | _ => cases runs
  | any =>
    cases runs
    rfl
  | optional _ ih =>
    cases value with
    | null => cases runs; rfl
    | _ => exact ih runs
  | vector item ih =>
    have items (values : List Value) (found : Array Value) (start : Heap)
        (all : Array Value × Heap) (reads : readAll item.read values found start = .ok all) :
        all.2.objects = start.objects := by
      induction values generalizing found start with
      | nil =>
        cases reads
        rfl
      | cons _ _ restHypothesis =>
        obtain ⟨_, readsFirst, reads⟩ := Catalog.ok_of_bind reads
        exact (restHypothesis _ _ reads).trans (ih readsFirst)
    cases value with
    | array =>
      obtain ⟨_, reads, given⟩ := Catalog.ok_of_bind runs
      cases given
      exact items _ _ _ _ reads
    | _ => cases runs

theorem read_of_not_array (shape : Shape) (plain : ∀ ref, value ≠ .array ref)
    (runs : shape.read value heap = .ok result)
    (other : Heap) : shape.read value other = .ok (result.1, other) := by
  induction shape generalizing result with
  | int | int64 | uint | uint64 | float | double | bool | string | function =>
    obtain ⟨_, reads, given⟩ := Catalog.ok_of_bind runs
    cases given
    simp only [read, reads]
    rfl
  | unit =>
    cases value with
    | void => cases runs; rfl
    | _ => cases runs
  | any =>
    cases runs
    rfl
  | optional _ ih =>
    cases value with
    | null => cases runs; rfl
    | _ => exact ih runs
  | vector =>
    cases value with
    | array ref => exact absurd rfl (plain ref)
    | _ => cases runs

end Shape

/-! ## What a store does -/

namespace MemberStore

/-- How a store reaches its slot. -/
def access : MemberStore -> SlotAccess
  | .field access => access
  | .property setter => setter.access

/-- A store puts the value into the slot, as the shape of the member reads it. -/
def Stores (store : MemberStore) (value : Value) (ref : ObjectRef) (before after : Heap) : Prop :=
  ∃ stored later, store.access.shape.read value before = .ok (stored, later)
    ∧ after = later.setPayload ref ((before.object ref).payload.store store.access.slot stored)

end MemberStore

theorem HostCall.receiverPayload_ok (isReceiver : call.receiver = some (.object ref))
    (runs : call.receiverPayload kind heap = .ok found) :
    found = (ref, (heap.object ref).payload) ∧ (heap.object ref).payload.kind = kind := by
  simp only [receiverPayload, receiverValue, isReceiver, Heap.payload] at runs
  by_cases isKind : (heap.object ref).payload.kind = kind
  · simp only [bind, Except.bind, if_pos isKind] at runs
    cases runs
    exact ⟨rfl, isKind⟩
  · simp only [bind, Except.bind, if_neg isKind] at runs
    cases runs

theorem HostCall.read_ok {α : Type} {reading : Value -> Except ConversionError α} {result : α}
    (runs : call.read index reading = .ok result) :
    ∃ argument, call.argument index = .ok argument ∧ reading argument = .ok result := by
  obtain ⟨argument, isArgument, runs⟩ := Catalog.ok_of_bind runs
  refine ⟨argument, isArgument, ?_⟩
  cases reads : reading argument with rw [reads] at runs
  | ok =>
    cases runs
    rfl
  | error => cases runs

theorem SlotAccess.set_stores {ref : ObjectRef} {value : Value}
    (runs : access.set heap ref value = .ok after) :
    (MemberStore.field access).Stores value ref heap after := by
  unfold set at runs
  cases reads : access.shape.read value heap with rw [reads] at runs
  | error => cases runs
  | ok =>
    obtain ⟨payload, found, given⟩ := Catalog.ok_of_bind runs
    cases given
    unfold Heap.payload at found
    simp only at found
    split at found
    · cases found
      rw [Heap.object_eq_of_objects (access.shape.objects_read reads)]
      exact ⟨_, _, reads, rfl⟩
    · cases found

/-- A setter that returns has stored its argument. -/
theorem MemberSetter.perform_stores {natives : Natives} {setter : MemberSetter} {answer : Value}
    (performed : setter.function.action.perform natives
      { receiver := some (.object ref), arguments := [value] } heap = .ended (.ok answer) after) :
    (MemberStore.property setter).Stores value ref heap after := by
  have performed : HostStep.of heap _ = HostStep.ended _ _ := performed
  unfold HostStep.of at performed
  split at performed
  · rename_i runs
    cases performed
    obtain ⟨_, reads, runs⟩ := Catalog.ok_of_bind runs
    obtain ⟨argument, isArgument, reads⟩ := HostCall.read_ok reads
    obtain ⟨found, receives, given⟩ := Catalog.ok_of_bind runs
    obtain ⟨rfl, _⟩ := HostCall.receiverPayload_ok rfl receives
    cases given
    cases isArgument
    rw [Heap.object_eq_of_objects (setter.access.shape.objects_read reads)]
    exact ⟨_, _, reads, rfl⟩
  · cases performed

end OpMachine
