import Mathlib.Data.List.Fold
import Mathlib.Data.List.Forall2
import OpMachine.Proofs.HostEffects

namespace OpMachine

/-!
# Places of items

An array that was made with some dimensions has one place for every list of
indices that lies inside of them, and the places are in row-major order.  A
store to one of them is seen there and nowhere else, and indices that do not
lie inside are refused.
-/

namespace ArrayCell

def room (dimensions : List Nat) : Nat := dimensions.foldr (· * ·) 1

/-- Indices lie inside of dimensions, one index in each. -/
abbrev Inside (dimensions : List Nat) (indices : List Int) : Prop :=
  List.Forall₂ (fun (index : Int) (dimension : Nat) => 0 ≤ index ∧ index < dimension)
    indices dimensions

/-- Why indices are refused: their number, or else the first one that lies
outside. -/
def refusal? (dimensions : List Nat) (indices : List Int) : Option RuntimeError :=
  if indices.length = dimensions.length then
    ((indices.zip dimensions).find? fun pair => ¬ (0 ≤ pair.1 ∧ pair.1 < pair.2)).map fun pair =>
      .indexOutOfRange pair.1 pair.2
  else some (.typeMismatch (toString dimensions.length ++ " indices")
    (toString indices.length ++ " indices"))

/-- The number of items before the one with given indices. -/
def place : List Nat -> List Int -> Nat
  | _ :: dimensions, index :: indices => index.toNat * room dimensions + place dimensions indices
  | _, _ => 0

/-- The position of indices computed in words of 64 bits.  There is none if a
product or a sum does not fit them. -/
def wordOffset? : List Nat -> Nat -> List Int -> Option (Except RuntimeError Nat)
  | dimension :: dimensions, position, index :: indices =>
      if 0 ≤ index ∧ index < dimension then
        if position * dimension + index.toNat < UInt64.size then
          wordOffset? dimensions (position * dimension + index.toNat) indices
        else none
      else some (.error (.indexOutOfRange index dimension))
  | _, position, _ => some (.ok position)

variable {dimensions : List Nat} {indices others : List Int} {position : Nat}

/-! ## Row-major order -/

theorem digits_lt {base first count low : Nat} (small : low < base) (below : first < count) :
    first * base + low < count * base :=
  calc first * base + low
      < first * base + base := Nat.add_lt_add_left small _
    _ = (first + 1) * base := (Nat.succ_mul ..).symm
    _ ≤ count * base := Nat.mul_le_mul_right _ below

/-- Numbers of two digits are compared by the first digit, and then by the second. -/
theorem digits_lt_iff {base first second low other : Nat} (small : low < base)
    (less : other < base) :
    (first * base + low < second * base + other <-> first < second ∨ first = second ∧ low < other)
      ∧ (first * base + low = second * base + other <-> first = second ∧ low = other) := by
  rcases Nat.lt_trichotomy first second with before | rfl | after
  · have := digits_lt small before
    omega
  · omega
  · have := digits_lt less after
    omega

theorem place_lt (inside : Inside dimensions indices) :
    place dimensions indices < room dimensions := by
  induction inside with
  | nil => exact Nat.one_pos
  | cons within _ ih => exact digits_lt ih (by omega)

theorem exists_inside (small : position < room dimensions) :
    ∃ indices, Inside dimensions indices ∧ place dimensions indices = position := by
  induction dimensions generalizing position with
  | nil => exact ⟨[], .nil, (Nat.lt_one_iff.mp small).symm⟩
  | cons dimension dimensions ih =>
    have positive : 0 < room dimensions := Nat.pos_of_lt_mul_left small
    obtain ⟨indices, inside, isPlace⟩ := ih (Nat.mod_lt position positive)
    have first : position / room dimensions < dimension :=
      Nat.div_lt_of_lt_mul (Nat.mul_comm .. ▸ small)
    refine ⟨(position / room dimensions : Nat) :: indices,
      .cons ⟨Int.natCast_nonneg _, Int.ofNat_lt.mpr first⟩ inside, ?_⟩
    rw [place, isPlace, Int.toNat_natCast, Nat.mul_comm, Nat.div_add_mod]

theorem place_order (inside : Inside dimensions indices) (within : Inside dimensions others) :
    (place dimensions indices < place dimensions others <-> indices < others)
      ∧ (place dimensions indices = place dimensions others <-> indices = others) := by
  induction inside generalizing others with
  | nil =>
    cases within
    exact ⟨iff_of_false (Nat.lt_irrefl _) (List.lt_irrefl _), iff_of_true rfl rfl⟩
  | @cons index _ _ _ isIndex inside ih =>
    cases within with
    | @cons other _ _ _ isOther within =>
      obtain ⟨less, same⟩ := ih within
      obtain ⟨digitsLess, digitsSame⟩ := @digits_lt_iff _ index.toNat other.toNat _ _
        (place_lt inside) (place_lt within)
      rw [List.cons_lt_cons_iff, List.cons_eq_cons, ← less, ← same, place, place]
      omega

/-! ## Offsets -/

theorem offsetFrom_eq_elim (rank : indices.length = dimensions.length) (start : Nat) :
    offsetFrom dimensions start indices = (refusal? dimensions indices).elim
      (.ok (start * room dimensions + place dimensions indices)) .error := by
  rw [refusal?, if_pos rank]
  fun_induction offsetFrom dimensions start indices with
  | case1 dimension dimensions start index indices within ih =>
    rw [ih (Nat.succ.inj rank), List.zip_cons_cons, List.find?_cons_of_neg (by simpa using within),
      Nat.add_mul, Nat.mul_assoc, Nat.add_assoc]
    rfl
  | case2 _ _ _ _ _ outside =>
    rw [List.zip_cons_cons, List.find?_cons_of_pos (by simpa only [decide_eq_true_eq])]
    rfl
  | case3 dimensions start indices none =>
    cases dimensions <;> cases indices
    · exact congrArg Except.ok (Nat.mul_one start).symm
    · cases rank
    · cases rank
    · exact (none _ _ _ _ rfl rfl).elim

theorem inside_iff : Inside dimensions indices <-> refusal? dimensions indices = none := by
  rw [Inside, List.forall₂_iff_zip, refusal?]
  split
  next rank => simp [rank]
  next rank => simp [rank]

variable {cell : ArrayCell} {error : RuntimeError}

theorem offset_eq (cell : ArrayCell) (indices : List Int) :
    cell.offset indices = (refusal? cell.dimensions indices).elim
      (.ok (place cell.dimensions indices)) .error := by
  unfold offset
  split
  next rank => rw [offsetFrom_eq_elim rank, Nat.zero_mul, Nat.zero_add]
  next rank => rw [refusal?, if_neg rank]; rfl

theorem offset_of_inside (inside : Inside cell.dimensions indices) :
    cell.offset indices = .ok (place cell.dimensions indices) := by
  rw [offset_eq, inside_iff.mp inside]
  rfl

theorem offset_error_iff :
    cell.offset indices = .error error <-> refusal? cell.dimensions indices = some error := by
  rw [offset_eq]
  cases refusal? cell.dimensions indices <;> simp

theorem offset_ok (leads : cell.offset indices = .ok position) :
    Inside cell.dimensions indices ∧ place cell.dimensions indices = position := by
  rw [offset_eq] at leads
  cases accepted : refusal? cell.dimensions indices with rw [accepted] at leads
  | none => exact ⟨inside_iff.mpr accepted, Except.ok.inj leads⟩
  | some => cases leads

/-- Positions in an array that can be made fit words of 64 bits on the way. -/
theorem wordOffset_eq {product count : Nat}
    (fits : Heap.wordProduct product dimensions = some count) (before : position < product) :
    wordOffset? dimensions position indices = some (offsetFrom dimensions position indices) := by
  fun_induction Heap.wordProduct product dimensions generalizing position indices with
  | case1 => cases indices <;> rfl
  | case2 product dimension dimensions small ih =>
    cases indices with
    | nil => rfl
    | cons index indices =>
      unfold wordOffset? offsetFrom
      split
      next within =>
        have inside : position * dimension + index.toNat < product * dimension :=
          digits_lt (by omega) before
        rw [if_pos (Nat.lt_trans inside small)]
        exact ih fits inside
      next => rfl
  | case3 => cases fits

theorem wordProduct_eq (fits : Heap.wordProduct product dimensions = some count) :
    count = product * room dimensions := by
  fun_induction Heap.wordProduct product dimensions with
  | case1 product => exact (Option.some.inj fits).symm.trans (Nat.mul_one product).symm
  | case2 product dimension dimensions small ih => exact (ih fits).trans (Nat.mul_assoc ..)
  | case3 => cases fits

theorem length_eq (cell : ArrayCell) : cell.length = room cell.dimensions :=
  List.foldl_eq_foldr

/-! ## Items -/

theorem get_eq (cell : ArrayCell) (indices : List Int) :
    get cell indices = (refusal? cell.dimensions indices).elim
      (.ok (cell.items.getD (place cell.dimensions indices) .void)) .error := by
  rw [get, offset_eq]
  cases refusal? cell.dimensions indices <;> rfl

theorem get_setIfInBounds (size : cell.items.size = room cell.dimensions)
    (inside : Inside cell.dimensions indices) (value : Value) (others : List Int) :
    get { cell with
        items := cell.items.setIfInBounds (place cell.dimensions indices) value } others
      = if indices = others then .ok value else cell.get others := by
  rw [get_eq, get_eq]
  cases accepted : refusal? cell.dimensions others with
  | some =>
    have different : indices ≠ others := by
      rintro rfl
      cases (inside_iff.mp inside).symm.trans accepted
    rw [if_neg different]
    rfl
  | none =>
    simp only [Option.elim_none, Array.getD_eq_getD_getElem?, Array.getElem?_setIfInBounds]
    by_cases same : indices = others
    · subst same
      rw [if_pos rfl, if_pos rfl, if_pos (size ▸ place_lt inside)]
      rfl
    · rw [if_neg same, if_neg (mt (place_order inside (inside_iff.mpr accepted)).2.mp same)]

end ArrayCell

namespace Heap

/-- A use of an array: an item is read or written, or all items are listed. -/
inductive ItemAccess where
  | get (indices : List Int)
  | set (indices : List Int) (value : Value)
  | items

def accessed (heap : Heap) (ref : ArrayRef) : ItemAccess -> Heap
  | .set indices value =>
      match heap.setItem ref indices value with
      | .ok after => after
      | .error _ => heap
  | _ => heap

open ArrayCell

/-- The items of an array are found by indices inside of its dimensions. -/
structure Places (heap : Heap) (ref : ArrayRef) (dimensions : List Nat) : Prop where
  isDimensions : (heap.array ref).dimensions = dimensions
  size : (heap.array ref).items.size = (heap.array ref).length
  accepts (indices : List Int) :
    (∃ position, (heap.array ref).offset indices = .ok position) <-> Inside dimensions indices
  fitsWords (indices : List Int) : indices.length = dimensions.length ->
    wordOffset? dimensions 0 indices = some ((heap.array ref).offset indices)
  covers (position : Nat) : position < (heap.array ref).length ->
    ∃ indices, (heap.array ref).offset indices = .ok position
  ordered {first second : List Int} {position place : Nat} :
    (heap.array ref).offset first = .ok position -> (heap.array ref).offset second = .ok place ->
      position < (heap.array ref).length ∧ (position < place <-> first < second)
        ∧ (position = place <-> first = second)
  got {indices : List Int} {position : Nat} : (heap.array ref).offset indices = .ok position ->
    ∃ item, (heap.array ref).items[position]? = some item
      ∧ (heap.array ref).get indices = .ok item
  stored {indices : List Int} (value : Value) : Inside dimensions indices ->
    ∃ after, heap.setItem ref indices value = .ok after ∧ ∀ others,
      (after.array ref).get others
        = if indices = others then .ok value else (heap.array ref).get others
  refused (indices : List Int) (value : Value) (error : RuntimeError) :
    ((heap.array ref).get indices = .error error <-> refusal? dimensions indices = some error)
      ∧ (heap.setItem ref indices value = .error error
        <-> refusal? dimensions indices = some error)

/-- An array as it was made, whatever its items are now. -/
structure Keeps (heap : Heap) (ref : ArrayRef) (dimensions : List Nat) : Prop where
  isOn : ref.index < heap.arrays.size
  isDimensions : (heap.array ref).dimensions = dimensions
  size : (heap.array ref).items.size = room dimensions
  fits : wordProduct 1 dimensions = some (room dimensions)

variable {heap after : Heap} {ref : ArrayRef} {dimensions : List Nat} {indices : List Int}
  {value : Value}

theorem size_copies (heap : Heap) (value : Value) (count : Nat) (items : Array Value) :
    (heap.copies value count items).1.size = items.size + count := by
  induction count generalizing heap items with
  | zero => rfl
  | succ count ih =>
    rw [copies, ih, Array.size_push]
    omega

theorem array_addArray (heap : Heap) (cell : ArrayCell) :
    (heap.addArray cell).2.array (heap.addArray cell).1 = cell := by
  simp only [addArray, array, Array.getD_eq_getD_getElem?, Array.getElem?_push_size,
    Option.getD_some]

theorem keeps_newArray {elementType : TypeHash}
    (makes : heap.newArray elementType dimensions fill = .ok (ref, after)) :
    after.Keeps ref dimensions := by
  unfold newArray itemCount at makes
  split at makes
  next count fits =>
    split at makes
    · cases makes
      obtain rfl : count = room dimensions := (wordProduct_eq fits).trans (Nat.one_mul _)
      have isCell := array_addArray (heap.copies fill (room dimensions) #[]).2
        ⟨elementType, dimensions, (heap.copies fill (room dimensions) #[]).1⟩
      refine ⟨Nat.lt_of_lt_of_eq .refl (Array.size_push _).symm,
        congrArg (·.dimensions) isCell, (congrArg (·.items.size) isCell).trans ?_, fits⟩
      exact (size_copies ..).trans (Nat.zero_add _)
    · cases makes
  next => cases makes

theorem setItem_error_iff : heap.setItem ref indices value = .error error
      <-> refusal? (heap.array ref).dimensions indices = some error := by
  rw [← offset_error_iff, setItem]
  cases (heap.array ref).offset indices with
  | error => constructor <;> exact fun same => congrArg Except.error (Except.error.inj same)
  | ok => constructor <;> exact fun fails => by cases fails

theorem array_setItem (isOn : ref.index < heap.arrays.size)
    (inside : Inside (heap.array ref).dimensions indices) (value : Value) :
    ∃ after, heap.setItem ref indices value = .ok after ∧ after.arrays.size = heap.arrays.size
      ∧ after.array ref = { heap.array ref with
        items := (heap.array ref).items.setIfInBounds
          (place (heap.array ref).dimensions indices) value } := by
  rw [setItem, offset_of_inside inside]
  refine ⟨_, rfl, Array.size_modify .., ?_⟩
  unfold array
  simp only [Array.getD_eq_getD_getElem?, Array.getElem?_modify, Array.getElem?_eq_getElem isOn]
  simp

theorem Keeps.accessed (keeps : heap.Keeps ref dimensions) (access : ItemAccess) :
    (heap.accessed ref access).Keeps ref dimensions := by
  cases access with
  | get | items => exact keeps
  | set indices value =>
    cases accepted : refusal? (heap.array ref).dimensions indices with
    | some error =>
      rw [Heap.accessed, setItem_error_iff.mpr accepted]
      exact keeps
    | none =>
      obtain ⟨after, stores, sameSize, isCell⟩ :=
        array_setItem keeps.isOn (inside_iff.mpr accepted) value
      rw [Heap.accessed, stores]
      refine ⟨sameSize ▸ keeps.isOn, ?_, ?_, keeps.fits⟩
      · rw [isCell]
        exact keeps.isDimensions
      · rw [isCell]
        exact (Array.size_setIfInBounds ..).trans keeps.size

theorem Keeps.places (keeps : heap.Keeps ref dimensions) : heap.Places ref dimensions := by
  obtain ⟨isOn, rfl, size, fits⟩ := keeps
  have isLength := (heap.array ref).length_eq
  refine ⟨rfl, size.trans isLength.symm, ?_, ?_, ?_, ?_, ?_, ?_, ?_⟩
  · exact fun indices => ⟨fun leads => (offset_ok leads.choose_spec).1,
      fun inside => ⟨_, offset_of_inside inside⟩⟩
  · intro indices rank
    rw [offset, if_pos rank]
    exact wordOffset_eq fits Nat.one_pos
  · intro position small
    obtain ⟨indices, inside, rfl⟩ := exists_inside (isLength ▸ small)
    exact ⟨indices, offset_of_inside inside⟩
  · intro first second position place leads goes
    obtain ⟨inside, rfl⟩ := offset_ok leads
    obtain ⟨within, rfl⟩ := offset_ok goes
    exact ⟨isLength ▸ place_lt inside, place_order inside within⟩
  · intro indices position leads
    obtain ⟨inside, rfl⟩ := offset_ok leads
    have found := Array.getElem?_eq_getElem (size ▸ place_lt inside)
    refine ⟨_, found, ?_⟩
    rw [get_eq, inside_iff.mp inside, Array.getD_eq_getD_getElem?, found]
    rfl
  · intro indices value inside
    obtain ⟨after, stores, -, isCell⟩ := array_setItem isOn inside value
    exact ⟨after, stores, isCell ▸ get_setIfInBounds size inside value⟩
  · intro indices value error
    refine ⟨?_, setItem_error_iff⟩
    rw [get_eq]
    cases refusal? (heap.array ref).dimensions indices <;> simp

/-- Indexing is a bijection: an array that was made has, after any uses of it,
one place for every list of indices inside of its dimensions. -/
theorem newArray_places {elementType : TypeHash} {fill : Value}
    (makes : heap.newArray elementType dimensions fill = .ok (ref, after))
    (accesses : List ItemAccess) :
    (accesses.foldl (fun heap access => heap.accessed ref access) after).Places ref dimensions := by
  have keeps := keeps_newArray makes
  clear makes
  refine Keeps.places ?_
  induction accesses generalizing after with
  | nil => exact keeps
  | cons access accesses ih => exact ih (keeps.accessed access)

theorem matrix_places : ∃ after, ({} : Heap).newArray .int [2, 3] (.int 0) = .ok (⟨0⟩, after)
    ∧ (after.accessed ⟨0⟩ (.set [1, 2] (.int 9))).Places ⟨0⟩ [2, 3] :=
  ⟨_, rfl, @newArray_places {} _ ⟨0⟩ [2, 3] .int (.int 0) rfl [.set [1, 2] (.int 9)]⟩

end Heap
end OpMachine
