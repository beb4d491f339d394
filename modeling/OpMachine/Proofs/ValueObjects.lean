import Mathlib.Data.List.Perm.Basic
import OpMachine.Proofs.CodeSafety
import OpMachine.Proofs.MemberStores

namespace OpMachine

/-!
# Value objects have one holder

A value object is duplicated whenever it is stored in a variable or in an
element of an array.  So no two variables of live frames ever hold the same value
object, and none of them holds one that the machine has stored in an array.
Values travel by reference between the stores, over the stack, through host
functions and back; what keeps the variables apart is only that a store is of a
copy that nothing else refers to.

`Heap.Apart` is the invariant.  It is carried together with the fact that no
reference dangles, since an object that is made takes the next place on the
heap.  Native functions have to keep to that as well, which is what
`Natives.Grounded` asks of them.

Two things are shared all the same.  A copy is shallow: the value objects that
its payload refers to are those of the original.  And the receiver of a compiled
function is handed on without a copy, so the slot of a receiver holds the very
object that a host function has bound the function to.
-/

/-! ## Values that share an object -/

/-- Two values are the same value object. -/
def Value.Shares (heap : Heap) (first second : Value) : Prop :=
  ∃ ref, first = .object ref ∧ second = .object ref ∧ (heap.object ref).isValue = true

/-- A later heap on which every object is still there, a value object or another
one as it was. -/
structure Heap.Retains (before after : Heap) : Prop where
  objects : before.objects.size ≤ after.objects.size
  kinds : ∀ index, index < before.objects.size ->
    (after.object (.place index)).isValue = (before.object (.place index)).isValue

theorem Heap.Admits.retains {before after : Heap} (admits : before.Admits after) : before.Retains after :=
  ⟨admits.objects, admits.kinds⟩

theorem Heap.Change.retains {before after : Heap} (change : before.Change given after made) : before.Retains after :=
  ⟨change.objects, change.kinds⟩

theorem Heap.retains_of_objects {before after : Heap} (same : after.objects = before.objects) :
    before.Retains after where
  objects := Nat.le_of_eq (congrArg Array.size same.symm)
  kinds := fun _ _ => congrArg ObjectCell.isValue (object_eq_of_objects same _)

namespace Value

variable {heap after : Heap} {first second : Value}

theorem Shares.symm (shares : first.Shares heap second) : second.Shares heap first := by
  rcases shares with ⟨ref, isFirst, isSecond, isValue⟩
  exact ⟨ref, isSecond, isFirst, isValue⟩

/-- A value that is on a heap shares later what it shared before. -/
theorem Shares.of_retains (retains : heap.Retains after) (isOn : first.IsOn heap)
    (shares : first.Shares after second) : first.Shares heap second := by
  rcases shares with ⟨ref, rfl, rfl, isValue⟩
  refine ⟨ref, rfl, rfl, ?_⟩
  cases ref with
  | place index => exact (retains.kinds index isOn).symm.trans isValue
  | closure => exact isValue

theorem Unplaced.not_shares (unplaced : second.Unplaced) : ¬ first.Shares heap second := by
  rintro ⟨ref, _, rfl, isValue⟩
  cases ref with
  | place => exact unplaced
  | closure => cases isValue

end Value

namespace Heap

theorem not_shares_copied (value : Value) {other : Value} (isOn : other.IsOn heap) :
    ¬ other.Shares (heap.copied value).2 (heap.copied value).1 := by
  rintro ⟨_, rfl, isCopy, isValue⟩
  cases value with
  | object original =>
    unfold copied at isCopy isValue
    simp only at isCopy isValue
    by_cases duplicated : (heap.object original).isValue = true
    · rw [if_pos duplicated] at isCopy
      cases isCopy
      exact Nat.lt_irrefl _ isOn
    · rw [if_neg duplicated] at isCopy isValue
      cases isCopy
      exact duplicated isValue
  | _ => cases isCopy

/-- No two variables hold the same value object, and none holds one that was
stored in an array. -/
structure Apart (heap : Heap) (stored : Value -> Prop) (holders : List Value) : Prop where
  pairwise : holders.Pairwise fun first second => ¬ first.Shares heap second
  elements : ∀ value, value ∈ holders -> ∀ element, stored element ->
    ¬ value.Shares heap element
  present : ∀ element, stored element -> element.IsOn heap

namespace Apart

variable {heap after : Heap} {stored : Value -> Prop} {holders others : List Value}
  {value : Value}

variable (apart : heap.Apart stored holders)

include apart

theorem perm (same : others.Perm holders) : heap.Apart stored others where
  pairwise := (same.pairwise_iff fun shares other => shares other.symm).mpr apart.pairwise
  elements := fun value member => apart.elements value (same.mem_iff.mp member)
  present := apart.present

theorem sublist (fewer : others.Sublist holders) : heap.Apart stored others where
  pairwise := apart.pairwise.sublist fewer
  elements := fun value member => apart.elements value (fewer.subset member)
  present := apart.present

theorem cons (fresh : ∀ other, other ∈ holders -> ¬ other.Shares heap value)
    (elements : ∀ element, stored element -> ¬ element.Shares heap value) :
    heap.Apart stored (value :: holders) where
  pairwise := List.pairwise_cons.mpr
    ⟨fun other member shares => fresh other member shares.symm, apart.pairwise⟩
  elements := by
    intro other member element isStored shares
    rcases List.mem_cons.mp member with rfl | known
    · exact elements element isStored shares.symm
    · exact apart.elements other known element isStored shares
  present := apart.present

theorem append_unplaced (unplaced : ∀ value, value ∈ others -> value.Unplaced) :
    heap.Apart stored (others ++ holders) := by
  induction others with
  | nil => exact apart
  | cons value _ ih =>
    have behind := ih fun other member => unplaced other (List.mem_cons_of_mem value member)
    have first := unplaced value (.head _)
    exact behind.cons (fun _ _ => first.not_shares) fun _ _ => first.not_shares

theorem set (fresh : ∀ other, other ∈ holders -> ¬ other.Shares heap value)
    (elements : ∀ element, stored element -> ¬ element.Shares heap value) (index : Nat) :
    heap.Apart stored (holders.set index value) := by
  by_cases inside : index < holders.length
  · have fewer := (holders.eraseIdx_sublist index).cons_cons value
    exact ((apart.cons fresh elements).sublist fewer).perm
      (List.set_perm_cons_eraseIdx inside value)
  · rw [List.set_eq_of_length_le (Nat.le_of_not_lt inside)]
    exact apart

theorem retain (retains : heap.Retains after)
    (isOn : ∀ value, value ∈ holders -> value.IsOn heap) : after.Apart stored holders where
  pairwise := apart.pairwise.imp_of_mem fun member _ separate shares =>
    separate (shares.of_retains retains (isOn _ member))
  elements := fun value member element isStored shares => apart.elements value member element
    isStored (shares.of_retains retains (isOn value member))
  present := fun element isStored => isOn_of_le retains.objects (apart.present element isStored)

theorem copied (isOn : ∀ value, value ∈ holders -> value.IsOn heap) (value : Value) :
    (heap.copied value).2.Apart stored holders
      ∧ (∀ other, other ∈ holders ->
        ¬ other.Shares (heap.copied value).2 (heap.copied value).1)
      ∧ ∀ element, stored element ->
        ¬ element.Shares (heap.copied value).2 (heap.copied value).1 :=
  ⟨apart.retain (heap.change_copied value).retains isOn,
    fun other member => not_shares_copied value (isOn other member),
    fun element isStored => not_shares_copied value (apart.present element isStored)⟩

/-- More is stored that no variable holds. -/
theorem storing {more : Value -> Prop}
    (fresh : ∀ value, value ∈ holders -> ∀ element, more element ->
      ¬ value.Shares heap element)
    (present : ∀ element, more element -> element.IsOn heap) :
    heap.Apart (fun element => stored element ∨ more element) holders where
  pairwise := apart.pairwise
  elements := fun value member element => fun
    | .inl isStored => apart.elements value member element isStored
    | .inr isMore => fresh value member element isMore
  present := fun element => fun
    | .inl isStored => apart.present element isStored
    | .inr isMore => present element isMore

theorem mono {fewer : Value -> Prop} (within : ∀ element, fewer element -> stored element) :
    heap.Apart fewer holders where
  pairwise := apart.pairwise
  elements := fun value member element isStored =>
    apart.elements value member element (within element isStored)
  present := fun element isStored => apart.present element (within element isStored)

end Apart

theorem Closed.element_isOn {heap : Heap} (closed : heap.Closed)
    (found : heap.element? ref position = some element) : element.IsOn heap := by
  rcases Option.bind_eq_some_iff.mp found with ⟨cell, isCell, isItem⟩
  exact closed.items cell (Array.mem_of_getElem? isCell) element (Array.mem_of_getElem? isItem)

/-- A heap with one item of an array replaced. -/
def replace (heap : Heap) (ref : ArrayRef) (position : Nat) (value : Value) : Heap :=
  { heap with
    arrays := heap.arrays.modify ref.index fun cell =>
      { cell with items := cell.items.setIfInBounds position value } }

section

variable {heap : Heap} {ref : ArrayRef} {position : Nat} {value : Value} {other : ArrayRef}

/-- After a store an element is the value that was stored, or it stands
elsewhere and is what it was. -/
theorem element?_replace
    (found : (heap.replace ref position value).element? other place = some element) :
    other = ref ∧ place = position ∧ element = value
      ∨ ¬ (other = ref ∧ place = position) ∧ heap.element? other place = some element := by
  rcases Option.bind_eq_some_iff.mp found with ⟨cell, isCell, isItem⟩
  rw [replace, Array.getElem?_modify] at isCell
  by_cases sameArray : ref.index = other.index
  · rw [if_pos sameArray] at isCell
    rcases Option.map_eq_some_iff.mp isCell with ⟨old, isOld, rfl⟩
    rw [Array.getElem?_setIfInBounds] at isItem
    by_cases samePlace : position = place
    · rw [if_pos samePlace] at isItem
      split at isItem
      · exact .inl ⟨congrArg ArrayRef.mk sameArray.symm, samePlace.symm, (Option.some.inj isItem).symm⟩
      · cases isItem
    · rw [if_neg samePlace] at isItem
      refine .inr ⟨fun same => samePlace same.2.symm, ?_⟩
      exact Option.bind_eq_some_iff.mpr ⟨old, isOld, isItem⟩
  · rw [if_neg sameArray] at isCell
    refine .inr ⟨fun same => sameArray (congrArg ArrayRef.index same.1.symm), ?_⟩
    exact Option.bind_eq_some_iff.mpr ⟨cell, isCell, isItem⟩

theorem Closed.replace (closed : heap.Closed) (isOn : value.IsOn heap) :
    (heap.replace ref position value).Closed where
  items := by
    intro cell member item isItem
    rcases Array.mem_iff_getElem?.mp member with ⟨index, isCell⟩
    rcases Array.mem_iff_getElem?.mp isItem with ⟨place, found⟩
    have isElement : (heap.replace ref position value).element? ⟨index⟩ place = some item :=
      Option.bind_eq_some_iff.mpr ⟨cell, isCell, found⟩
    rcases element?_replace isElement with ⟨_, _, rfl⟩ | ⟨_, known⟩
    · exact isOn
    · exact closed.element_isOn known
  slots := closed.slots
  targets := closed.targets
  natives := closed.natives

end

/-- A receiver that compiled code may have: null, or what a function on the heap
is bound to. -/
def MayReceive (heap : Heap) (value : Value) : Prop :=
  value = .null ∨ ∃ cell method, cell ∈ heap.functions ∧ cell.body = .compiled method
    ∧ cell.target = some value

theorem MayReceive.mono {heap after : Heap} (receives : heap.MayReceive value)
    (kept : ∀ cell, cell ∈ heap.functions -> cell ∈ after.functions) :
    after.MayReceive value := by
  rcases receives with isNull | ⟨cell, method, member, isBody, isTarget⟩
  · exact .inl isNull
  · exact .inr ⟨cell, method, kept cell member, isBody, isTarget⟩

theorem Admits.mem_functions {before after : Heap} (admits : before.Admits after) (member : cell ∈ before.functions) :
    cell ∈ after.functions := by
  rcases Array.mem_iff_getElem?.mp member with ⟨index, found⟩
  exact Array.mem_of_getElem? (admits.functions index cell found)

end Heap

/-! ## Machines -/

/-- The slots of a frame but that of the receiver. -/
def Frame.holders (frame : Frame) : List Value :=
  frame.arguments.toList.drop frame.method.hasReceiver.toNat ++ frame.locals.toList

def Frame.receiver? (frame : Frame) : Option Value :=
  if frame.method.hasReceiver then frame.arguments[0]? else none

/-- The values in the slots and on the stack of a frame. -/
def Frame.Has (frame : Frame) (value : Value) : Prop :=
  value ∈ frame.arguments ∨ value ∈ frame.locals ∨ value ∈ frame.operands

theorem Frame.has_of_holder {frame : Frame} (member : value ∈ frame.holders) :
    frame.Has value := by
  rcases List.mem_append.mp member with isArgument | isLocal
  · exact .inl (Array.mem_toList_iff.mp (List.mem_of_mem_drop isArgument))
  · exact .inr (.inl (Array.mem_toList_iff.mp isLocal))

namespace Activation

def holders : Activation -> List Value
  | .frame waiting _ => waiting.holders
  | .host _ _ => []

def receiver? : Activation -> Option Value
  | .frame waiting _ => waiting.receiver?
  | .host _ _ => none

/-- What waits refers to nothing that is not on a heap.  A host function makes up
no references, whatever is answered to it. -/
def IsOn (heap : Heap) : Activation -> Prop
  | .frame waiting _ => ∀ value, waiting.Has value -> value.IsOn heap
  | .host resume _ => ∀ answer (later : Heap), heap.objects.size ≤ later.objects.size ->
      later.Closed -> (∀ value, answer = .ok value -> value.IsOn later) ->
        (resume answer later).Grounded

theorem IsOn.grow {activation : Activation} (isOn : activation.IsOn heap)
    (le : heap.objects.size ≤ after.objects.size) : activation.IsOn after := by
  cases activation with
  | frame => exact fun value has => Heap.isOn_of_le le (isOn value has)
  | host => exact fun answer later larger => isOn answer later (Nat.le_trans le larger)

end Activation

namespace Control

def holders : Control -> List Value
  | .instruction running => running.holders
  | _ => []

def receiver? : Control -> Option Value
  | .instruction running => running.receiver?
  | .call (.method _ receiver _) => receiver
  | _ => none

def Has : Control -> Value -> Prop
  | .instruction running => running.Has
  | .call callee => callee.Has
  | .give result => (result = .ok ·)

/-- A host function that is called is one of a catalog. -/
def Offered (catalog : Catalog) : Control -> Prop
  | .call (.host function _) => catalog.Offers function
  | _ => True

end Control

/-- The variables of all live frames. -/
def Machine.holders (machine : Machine) : List Value :=
  machine.control.holders ++ machine.waiting.flatMap Activation.holders

/-- A receiver of a live frame, or of a method that is about to be entered. -/
def Machine.HasReceiver (machine : Machine) (value : Value) : Prop :=
  machine.control.receiver? = some value
    ∨ ∃ activation, activation ∈ machine.waiting ∧ activation.receiver? = some value

/-- The values that a catalog brings with it are on a heap. -/
structure Catalog.IsOn (catalog : Catalog) (heap : Heap) : Prop where
  fields : ∀ value, catalog.Fixes value -> value.IsOn heap
  functions : ∀ function, catalog.Offers function ->
    ∀ value, function.action.Fixes value -> value.IsOn heap

/-- The heap and the waiting activations of a machine whose variables, together
with some more, are kept apart. -/
structure Heap.Backs (catalog : Catalog) (stored : Value -> Prop) (heap : Heap)
    (waiting : List Activation) (holders : List Value) : Prop where
  closed : heap.Closed
  offered : catalog.IsOn heap
  values : ∀ activation, activation ∈ waiting -> activation.IsOn heap
  receivers : ∀ activation, activation ∈ waiting ->
    ∀ value, activation.receiver? = some value -> heap.MayReceive value
  apart : heap.Apart stored holders

/-- A machine whose variables are kept apart. -/
structure Machine.Tidy (catalog : Catalog) (stored : Value -> Prop) (machine : Machine) : Prop where
  backed : machine.heap.Backs catalog stored machine.waiting machine.holders
  control : ∀ value, machine.control.Has value -> value.IsOn machine.heap
  receiver : ∀ value, machine.control.receiver? = some value -> machine.heap.MayReceive value
  offered : machine.control.Offered catalog

section

variable {catalog : Catalog} {stored : Value -> Prop} {heap after : Heap}
  {waiting : List Activation} {holders : List Value} {given made : Value -> Prop} {value : Value}

theorem Catalog.IsOn.grow (offered : catalog.IsOn heap)
    (le : heap.objects.size ≤ after.objects.size) : catalog.IsOn after where
  fields := fun value fixes => Heap.isOn_of_le le (offered.fields value fixes)
  functions := fun function offers value fixes =>
    Heap.isOn_of_le le (offered.functions function offers value fixes)

namespace Heap.Backs

theorem isOn_of_mem (backs : heap.Backs catalog stored waiting holders)
    (member : value ∈ waiting.flatMap Activation.holders) : value.IsOn heap := by
  rcases List.mem_flatMap.mp member with ⟨activation, isWaiting, isHolder⟩
  cases activation with
  | frame => exact backs.values _ isWaiting value (Frame.has_of_holder isHolder)
  | host => cases isHolder

theorem drop
    (backs : heap.Backs catalog stored waiting (holders ++ waiting.flatMap Activation.holders)) :
    heap.Backs catalog stored waiting (waiting.flatMap Activation.holders) :=
  { backs with apart := backs.apart.sublist (List.sublist_append_right holders _) }

section

variable (backs : heap.Backs catalog stored waiting holders)
  (isOn : ∀ value, value ∈ holders -> value.IsOn heap)

include backs isOn

theorem grow (retains : heap.Retains after) (closed : after.Closed)
    (kept : ∀ cell, cell ∈ heap.functions -> cell ∈ after.functions) :
    after.Backs catalog stored waiting holders where
  closed := closed
  offered := backs.offered.grow retains.objects
  values := fun activation member => (backs.values activation member).grow retains.objects
  receivers := fun activation member value isReceiver =>
    (backs.receivers activation member value isReceiver).mono kept
  apart := backs.apart.retain retains isOn

/-- A change of the heap by a part of the program that touches no variable. -/
theorem change (change : heap.Change given after made)
    (known : ∀ value, given value -> value.IsOn heap) :
    after.Backs catalog stored waiting holders ∧ ∀ value, made value -> value.IsOn after := by
  rcases change.closed backs.closed known with ⟨closed, isMade⟩
  exact ⟨backs.grow isOn change.retains closed fun _ member => change.functions ▸ member, isMade⟩

theorem delegate (lambda : CompiledLambda) :
    (heap.delegate lambda).2.Backs catalog stored waiting holders := by
  have receiver : lambda.receiver.Unplaced := by
    unfold CompiledLambda.receiver CodeUnit.receiver
    split <;> trivial
  unfold Heap.delegate
  cases heap.delegates[lambda.cell]? with
  | some => exact backs
  | none =>
    refine backs.grow isOn (retains_of_objects rfl) ⟨backs.closed.items, backs.closed.slots, ?_, ?_⟩
      fun _ => Array.mem_push_of_mem _
    · intro cell member target isTarget
      rcases Array.mem_push.mp member with known | rfl
      · exact backs.closed.targets cell known target isTarget
      · cases isTarget
        exact receiver.isOn _
    · intro cell member native isNative
      rcases Array.mem_push.mp member with known | rfl
      · exact backs.closed.natives cell known native isNative
      · cases isNative

end

end Heap.Backs

/-! ## Steps outside of frames -/

namespace Machine

variable {host : Host} {depth : Nat} {counts : Bool} {arguments : List Value}

/-- The outcome of a step leaves the variables apart. -/
def LeavesTidy (catalog : Catalog) (stored : Value -> Prop) : Progress -> Prop
  | .running next => next.Tidy catalog stored
  | .ended _ => True

theorem backs_copyAll (values : List Value) (copies : Array Value) {first : Nat}
    (inside : first ≤ copies.size)
    (backs : heap.Backs catalog stored waiting
      (copies.toList.drop first ++ waiting.flatMap Activation.holders))
    (isOn : ∀ value, value ∈ values -> value.IsOn heap)
    (copied : ∀ value, value ∈ copies -> value.IsOn heap) :
    (Frame.copyAll values copies heap).2.Backs catalog stored waiting
        ((Frame.copyAll values copies heap).1.toList.drop first
          ++ waiting.flatMap Activation.holders)
      ∧ ∀ value, value ∈ (Frame.copyAll values copies heap).1 ->
        value.IsOn (Frame.copyAll values copies heap).2 := by
  induction values generalizing copies heap with
  | nil => exact ⟨backs, copied⟩
  | cons value _ ih =>
    have change := heap.change_copied value
    have onHeap (holder : Value)
        (member : holder ∈ copies.toList.drop first ++ waiting.flatMap Activation.holders) :
        holder.IsOn heap := by
      rcases List.mem_append.mp member with isCopy | isWaiting
      · exact copied holder (Array.mem_toList_iff.mp (List.mem_of_mem_drop isCopy))
      · exact backs.isOn_of_mem isWaiting
    rcases backs.change onHeap change fun _ same => same ▸ isOn value (.head _) with
      ⟨changed, isCopy⟩
    rcases backs.apart.copied onHeap value with ⟨apart, fresh, elements⟩
    refine ih _ ?_ { changed with apart := ?_ } ?_ ?_
    · rw [Array.size_push]
      exact Nat.le_succ_of_le inside
    · refine (apart.cons fresh elements).perm ?_
      rw [Array.toList_push, List.drop_append_of_le_length inside, List.append_assoc]
      exact List.perm_middle
    · exact fun other member =>
        Heap.isOn_of_le change.objects (isOn other (List.mem_cons_of_mem value member))
    · intro other member
      rcases Array.mem_push.mp member with known | rfl
      · exact Heap.isOn_of_le change.objects (copied other known)
      · exact isCopy _ rfl

theorem copyAll_kept (values : List Value) (inside : index < copies.size) (heap : Heap) :
    (Frame.copyAll values copies heap).1[index]? = copies[index]? := by
  induction values generalizing copies heap with
  | nil => rfl
  | cons value _ ih =>
    rw [Frame.copyAll]
    have later : index < (copies.push (heap.copied value).1).size := by
      rw [Array.size_push]
      exact Nat.lt_succ_of_lt inside
    rw [ih later, Array.getElem?_push_lt inside, Array.getElem?_eq_getElem inside]

section

variable (backs : heap.Backs catalog stored waiting (waiting.flatMap Activation.holders))

include backs

theorem leavesTidy_refuse (error : RuntimeError) :
    LeavesTidy catalog stored (refuse error waiting depth heap) :=
  ⟨backs, nofun, nofun, trivial⟩

theorem leavesTidy_hostStep {step : HostStep} (orderly : step.Orderly Excused heap)
    (grounded : step.Grounded) :
    LeavesTidy catalog stored (hostStep counts waiting depth step) := by
  cases step with
  | ended =>
    have admitted := backs.grow (fun _ => backs.isOn_of_mem) orderly.1.retains grounded.1
      fun _ => orderly.1.mem_functions
    exact ⟨admitted, grounded.2, nofun, trivial⟩
  | calling =>
    rcases grounded with ⟨⟨closed, arguments⟩, resumes⟩
    have admitted := backs.grow (fun _ => backs.isOn_of_mem) orderly.1.retains closed
      fun _ => orderly.1.mem_functions
    exact ⟨{ admitted with
        values := List.forall_mem_cons.mpr ⟨resumes, admitted.values⟩
        receivers := List.forall_mem_cons.mpr ⟨nofun, admitted.receivers⟩ },
      arguments, nofun, trivial⟩

theorem leavesTidy_enter {after : Heap} {receiver : Option Value}
    (entered : Frame.enter method receiver arguments heap = .ok (frame, after))
    (receives : ∀ value, receiver = some value -> heap.MayReceive value ∧ value.IsOn heap)
    (isOn : ∀ value, value ∈ arguments -> value.IsOn heap) :
    LeavesTidy catalog stored (.running ⟨.instruction frame, waiting, depth, after⟩) := by
  have functions := (Frame.enter_ok entered).2.2.2.2.2
  unfold Frame.enter at entered
  by_cases count : arguments.length = method.parameterCount
  · rw [if_pos count] at entered
    cases entered
    let first : Array Value := if method.hasReceiver then #[receiver.getD .null] else #[]
    have size : first.size = method.hasReceiver.toNat := by
      cases isReceiver : method.hasReceiver <;> simp [first, isReceiver]
    have isFirst (value : Value) (member : value ∈ first) : value = receiver.getD .null := by
      cases hasReceiver : method.hasReceiver <;> simp [first, hasReceiver] at member
      exact member
    have known : heap.MayReceive (receiver.getD .null) ∧ (receiver.getD .null).IsOn heap := by
      cases receiver with
      | none => exact ⟨.inl rfl, trivial⟩
      | some given => exact receives given rfl
    have started : heap.Backs catalog stored waiting
        (first.toList.drop method.hasReceiver.toNat ++ waiting.flatMap Activation.holders) := by
      rw [List.drop_eq_nil_of_le (Nat.le_of_eq size)]
      exact backs
    rcases backs_copyAll arguments first (Nat.le_of_eq size.symm) started isOn fun value member =>
      isFirst value member ▸ known.2 with ⟨entered, copied⟩
    have voids (value : Value) (member : value ∈ Array.replicate method.localCount Value.void) :
        value.Unplaced := by
      cases (Array.mem_replicate.mp member).2
      trivial
    refine ⟨{ entered with apart := ?_ }, ?_, ?_, trivial⟩
    · refine (entered.apart.append_unplaced fun value member =>
        voids value (Array.mem_toList_iff.mp member)).perm ?_
      rw [← List.append_assoc]
      exact List.perm_append_comm.append_right _
    · rintro value (isArgument | isLocal | isOperand)
      · exact copied value isArgument
      · exact (voids value isLocal).isOn _
      · cases isOperand
    · intro value isReceiver
      have isReceiver : (if method.hasReceiver then (Frame.copyAll arguments first heap).1[0]?
          else none) = some value := isReceiver
      by_cases hasReceiver : method.hasReceiver = true
      · rw [if_pos hasReceiver, copyAll_kept arguments (by rw [size, hasReceiver]; decide) heap]
          at isReceiver
        rw [isFirst value (Array.mem_of_getElem? isReceiver)]
        exact known.1.mono fun cell => (congrArg (cell ∈ ·) functions).mpr
      · rw [if_neg hasReceiver] at isReceiver
        cases isReceiver
  · rw [if_neg count] at entered
    cases entered

theorem leavesTidy_give {result : Except RuntimeError Value}
    (orderly : ∀ resume counts, .host resume counts ∈ waiting ->
      ∃ Excused, (resume result heap).Orderly Excused heap)
    (isOn : ∀ value, result = .ok value -> value.IsOn heap) :
    LeavesTidy catalog stored (give result waiting depth heap) := by
  cases waiting with
  | nil => trivial
  | cons activation rest =>
    have ⟨first, values⟩ := List.forall_mem_cons.mp backs.values
    have ⟨receiver, receivers⟩ := List.forall_mem_cons.mp backs.receivers
    have remaining : heap.Backs catalog stored rest
        ((activation :: rest).flatMap Activation.holders) := { backs with values, receivers }
    cases activation with
    | host resume counts =>
      rcases orderly resume counts (.head _) with ⟨_, isOrderly⟩
      exact leavesTidy_hostStep remaining isOrderly
        (first result heap (Nat.le_refl _) backs.closed isOn)
    | frame frame keep =>
      cases result with
      | error error => exact leavesTidy_refuse remaining.drop error
      | ok given =>
        cases keep with
        | false => exact ⟨remaining, first, receiver, trivial⟩
        | true =>
          refine ⟨remaining, ?_, receiver, trivial⟩
          rintro other (isArgument | isLocal | isOperand)
          · exact first other (.inl isArgument)
          · exact first other (.inr (.inl isLocal))
          · rcases List.mem_cons.mp isOperand with rfl | below
            · exact isOn other rfl
            · exact first other (.inr (.inr below))

end

end Machine

/-! ## Instructions -/

/-- The elements of arrays that the next instruction of a frame writes: one that
is there, or those of a new array. -/
inductive Frame.Writes (frame : Frame) (heap : Heap) (ref : ArrayRef) (position : Nat) : Prop
  | element {instruction : Instruction} {value : Value} {indices rest : List Value}
      {numbers : List Int64}
      (holds : frame.method.chunk.Holds frame.position instruction.bytes)
      (named : instruction.opcode = .storeElement)
      (count : indices.length = (instruction.byteAt 0).toNat)
      (isStack : frame.operands = value :: (indices.reverse ++ .array ref :: rest))
      (reads : indices.mapM Conversion.readInt64 = .ok numbers)
      (isThere : ref.index < heap.arrays.size)
      (found : (heap.array ref).offset (numbers.map (·.toInt)) = .ok position) :
      Writes frame heap ref position
  | array {instruction : Instruction}
      (holds : frame.method.chunk.Holds frame.position instruction.bytes)
      (named : instruction.opcode = .newArray) (isNew : ref.index = heap.arrays.size) :
      Writes frame heap ref position

/-- The values that the next instruction of a frame puts into elements. -/
def Frame.Puts (frame : Frame) (before after : Heap) (value : Value) : Prop :=
  ∃ ref position, frame.Writes before ref position
    ∧ after.element? ref position = some value

namespace Stance

variable {before after : Stance} {instruction : Instruction} {ref : ArrayRef} {position place : Nat}
  {value : Value} {indices rest : List Value} {numbers : List Int64}

/-- What is known of a frame that runs on top of the waiting activations. -/
structure Tidy (catalog : Catalog) (stored : Value -> Prop) (waiting : List Activation)
    (stance : Stance) : Prop where
  backed : stance.heap.Backs catalog stored waiting
    (stance.frame.holders ++ waiting.flatMap Activation.holders)
  values : ∀ value, stance.frame.Has value -> value.IsOn stance.heap
  receiver : ∀ value, stance.frame.receiver? = some value -> stance.heap.MayReceive value

namespace Tidy

theorem isOn_holders (tidy : before.Tidy catalog stored waiting) (holder : Value)
    (member : holder ∈ before.frame.holders ++ waiting.flatMap Activation.holders) :
    holder.IsOn before.heap := by
  rcases List.mem_append.mp member with own | isWaiting
  · exact tidy.values holder (Frame.has_of_holder own)
  · exact tidy.backed.isOn_of_mem isWaiting

theorem isOn_given (tidy : before.Tidy catalog stored waiting) (value : Value)
    (given : before.Given catalog value) : value.IsOn before.heap := by
  rcases given with isOperand | isArgument | isLocal | fixed
  · exact tidy.values value (.inr (.inr isOperand))
  · exact tidy.values value (.inl isArgument)
  · exact tidy.values value (.inr (.inl isLocal))
  · exact tidy.backed.offered.fields value fixed

/-- A frame whose slots are what they were, after a change of the heap. -/
theorem working (tidy : before.Tidy catalog stored waiting) (position : Nat) {operands : List Value}
    (change : before.heap.Change (before.Given catalog) heap (· ∈ operands)) :
    Tidy catalog stored waiting { before with operands, position, heap } := by
  rcases tidy.backed.change tidy.isOn_holders change tidy.isOn_given with ⟨changed, isOn⟩
  refine ⟨changed, ?_, fun value isReceiver => (tidy.receiver value isReceiver).mono ?_⟩
  · rintro value (isArgument | isLocal | isOperand)
    · exact Heap.isOn_of_le change.objects (tidy.values value (.inl isArgument))
    · exact Heap.isOn_of_le change.objects (tidy.values value (.inr (.inl isLocal)))
    · exact isOn value isOperand
  · exact fun cell member => change.functions ▸ member

/-- A store in a variable, given by its index among those of the frame. -/
theorem store (tidy : before.Tidy catalog stored waiting)
    {operands : List Value} (isStack : before.operands = value :: operands) (index : Nat)
    (inside : index < before.frame.holders.length)
    (holders : after.frame.holders = before.frame.holders.set index (before.heap.copied value).1)
    (has : ∀ other, after.frame.Has other -> before.frame.Has other
      ∨ other = (before.heap.copied value).1)
    (isHeap : after.heap = (before.heap.copied value).2)
    (receiver : after.frame.receiver? = before.frame.receiver?) :
    after.Tidy catalog stored waiting := by
  have change := before.heap.change_copied value
  have isWhole : before.frame.operands = value :: operands := isStack
  have isTop : before.frame.Has value := .inr (.inr (isWhole ▸ .head _))
  rcases tidy.backed.change tidy.isOn_holders change fun _ same => same ▸ tidy.values value isTop
    with ⟨changed, isCopy⟩
  rcases tidy.backed.apart.copied tidy.isOn_holders value with ⟨apart, fresh, elements⟩
  refine ⟨?_, ?_, ?_⟩
  · rw [isHeap, holders, ← List.set_append_left index _ inside]
    exact { changed with apart := apart.set fresh elements index }
  · intro other hasOther
    rw [isHeap]
    rcases has other hasOther with known | rfl
    · exact Heap.isOn_of_le change.objects (tidy.values other known)
    · exact isCopy _ rfl
  · intro value isReceiver
    rw [receiver] at isReceiver
    rw [isHeap]
    exact (tidy.receiver value isReceiver).mono fun cell member => change.functions ▸ member

end Tidy

theorem writesElements_of_opcode (named : instruction.opcode = opcode)
    (other : opcode ≠ .newArray ∧ opcode ≠ .storeElement) : instruction.writesElements = false := by
  unfold Instruction.writesElements
  rw [named]
  cases opcode
  case newArray => exact absurd rfl other.1
  case storeElement => exact absurd rfl other.2
  all_goals rfl

variable (holds : before.method.chunk.Holds before.position instruction.bytes)

include holds

theorem writesElements_of_writes (writes : before.frame.Writes before.heap ref position) :
    instruction.writesElements = true := by
  unfold Instruction.writesElements
  cases writes with
  | element other named | array other named =>
    cases other.instruction_eq holds
    rw [named]

/-- A frame that is tidy, whatever else is stored by an instruction that writes
no element. -/
theorem Tidy.writesNone (tidy : after.Tidy catalog stored waiting)
    (writesNone : instruction.writesElements = false) :
    after.Tidy catalog (fun element => stored element
      ∨ before.frame.Puts before.heap after.heap element) waiting where
  backed :=
    have apart := tidy.backed.apart.mono fun _ isStored => isStored.resolve_right <| by
      rintro ⟨_, _, writes, _⟩
      rw [writesElements_of_writes holds writes] at writesNone
      cases writesNone
    { tidy.backed with apart }
  values := tidy.values
  receiver := tidy.receiver

theorem eq_of_writes (named : instruction.opcode = .storeElement)
    (count : indices.length = (instruction.byteAt 0).toNat)
    (isStack : before.operands = value :: (indices.reverse ++ .array ref :: rest))
    (reads : indices.mapM Conversion.readInt64 = .ok numbers)
    (found : (before.heap.array ref).offset (numbers.map (·.toInt)) = .ok position)
    (writes : before.frame.Writes before.heap other place) : other = ref ∧ place = position := by
  cases writes with
  | array otherHolds otherNamed =>
    cases otherHolds.instruction_eq holds
    cases named.symm.trans otherNamed
  | element otherHolds _ otherCount otherStack otherReads _ otherFound =>
    cases otherHolds.instruction_eq holds
    have isWhole : before.frame.operands = _ := isStack
    rw [isWhole] at otherStack
    have below := (List.cons.inj otherStack).2
    rcases List.append_inj below
      (by rw [List.length_reverse, List.length_reverse, count, otherCount]) with ⟨sameIndices, sameRest⟩
    cases List.reverse_inj.mp sameIndices
    cases sameRest
    cases reads.symm.trans otherReads
    cases found.symm.trans otherFound
    exact ⟨rfl, rfl⟩

/-- A store in an element: what is stored is a copy that no variable holds. -/
theorem Tidy.replace (tidy : before.Tidy catalog stored waiting)
    (named : instruction.opcode = .storeElement)
    (count : indices.length = (instruction.byteAt 0).toNat)
    (isStack : before.operands = value :: (indices.reverse ++ .array ref :: rest))
    (reads : indices.mapM Conversion.readInt64 = .ok numbers)
    (found : ((before.heap.copied value).2.array ref).offset (numbers.map (·.toInt)) = .ok place) :
    Tidy catalog (fun element => stored element ∨ before.frame.Puts before.heap
        ((before.heap.copied value).2.replace ref place (before.heap.copied value).1) element) waiting
      { before with
        operands := rest, position
        heap := (before.heap.copied value).2.replace ref place (before.heap.copied value).1 } := by
  have change := before.heap.change_copied value
  have isWhole : before.frame.operands = value :: (indices.reverse ++ .array ref :: rest) := isStack
  have isTop : before.frame.Has value := .inr (.inr (isWhole ▸ .head _))
  rcases tidy.backed.change tidy.isOn_holders change fun _ same => same ▸ tidy.values value isTop with
    ⟨changed, isCopy⟩
  rcases tidy.backed.apart.copied tidy.isOn_holders value with ⟨apart, fresh, _⟩
  have sameFound : (before.heap.array ref).offset (numbers.map (·.toInt)) = .ok place := by
    rw [← found, Heap.array, Heap.array, before.heap.arrays_copied value]
  have isOn := fun holder member => Heap.isOn_of_le change.objects (tidy.isOn_holders holder member)
  have storing : Heap.Apart _ (fun element => stored element
      ∨ element = (before.heap.copied value).1) _ :=
    apart.storing (fun holder member _ same => same ▸ fresh holder member) isCopy
  have retains : (before.heap.copied value).2.Retains
      ((before.heap.copied value).2.replace ref place (before.heap.copied value).1) :=
    Heap.retains_of_objects rfl
  have replaced := changed.grow isOn retains (changed.closed.replace (isCopy _ rfl))
    fun _ member => member
  refine ⟨{ replaced with apart := ?_ }, ?_, fun value isReceiver =>
    (tidy.receiver value isReceiver).mono ?_⟩
  · refine (storing.retain retains isOn).mono fun element isStored => Or.imp_right ?_ isStored
    rintro ⟨other, position, writes, isThere⟩
    rcases eq_of_writes holds named count isStack reads sameFound writes with ⟨rfl, rfl⟩
    rcases Heap.element?_replace isThere with ⟨_, _, isCopy⟩ | ⟨elsewhere, _⟩
    · exact isCopy
    · exact absurd ⟨rfl, rfl⟩ elsewhere
  · rintro other (isArgument | isLocal | isOperand)
    · exact Heap.isOn_of_le change.objects (tidy.values other (.inl isArgument))
    · exact Heap.isOn_of_le change.objects (tidy.values other (.inr (.inl isLocal)))
    · apply Heap.isOn_of_le change.objects (tidy.values other (.inr (.inr _)))
      rw [isWhole]
      exact List.mem_cons_of_mem value (List.mem_append_right _ (.tail _ isOperand))
  · exact fun cell member => change.functions ▸ member

/-- A running frame stays tidy, and the elements it writes are kept apart from
the variables as well. -/
theorem Tidy.moves (tidy : before.Tidy catalog stored waiting)
    (spares : instruction.opcode = .setArg -> before.method.hasReceiver = true ->
      (instruction.byteAt 0).toNat ≠ 0)
    (moves : before.Moves catalog instruction after) :
    after.Tidy catalog (fun element => stored element
      ∨ before.frame.Puts before.heap after.heap element) waiting := by
  cases moves with
  | works writesNone change => exact (tidy.working _ change).writesNone holds writesNone
  | setsArgument named isStack inside =>
    -- The slot of the receiver, if there is one, stands before the variables.
    have behind : before.method.hasReceiver.toNat ≤ (instruction.byteAt 0).toNat := by
      cases hasReceiver : before.method.hasReceiver with
      | false => exact Nat.zero_le _
      | true => exact Nat.one_le_iff_ne_zero.mpr (spares named hasReceiver)
    have within : (instruction.byteAt 0).toNat < before.arguments.toList.length := inside
    have shifted : (instruction.byteAt 0).toNat - before.method.hasReceiver.toNat
        < (before.arguments.toList.drop before.method.hasReceiver.toNat).length := by
      rw [List.length_drop]
      exact Nat.sub_lt_sub_right behind within
    refine Tidy.writesNone holds (tidy.store isStack
      ((instruction.byteAt 0).toNat - before.method.hasReceiver.toNat) ?_ ?_ ?_ rfl ?_)
      (writesElements_of_opcode named ⟨nofun, nofun⟩)
    · exact (Nat.lt_add_right _ shifted).trans_eq List.length_append.symm
    · change (before.arguments.setIfInBounds _ _).toList.drop before.method.hasReceiver.toNat
        ++ before.locals.toList = _
      rw [Array.toList_setIfInBounds, List.drop_set, if_neg (Nat.not_lt.mpr behind)]
      exact (List.set_append_left _ _ shifted).symm
    · rintro other (isArgument | isElsewhere)
      · exact (Array.mem_or_eq_of_mem_setIfInBounds isArgument).imp_left .inl
      · refine .inl (.inr (isElsewhere.imp_right fun isOperand => ?_))
        rw [show before.frame.operands = _ from isStack]
        exact .tail _ isOperand
    · change (if before.method.hasReceiver then (before.arguments.setIfInBounds _ _)[0]? else none)
        = if before.method.hasReceiver then before.arguments[0]? else none
      by_cases hasReceiver : before.method.hasReceiver = true
      · rw [if_pos hasReceiver, if_pos hasReceiver,
          Array.getElem?_setIfInBounds_ne (spares named hasReceiver)]
      · rw [if_neg hasReceiver, if_neg hasReceiver]
  | setsLocal named isStack inside =>
    refine Tidy.writesNone holds (tidy.store isStack
      ((before.arguments.toList.drop before.method.hasReceiver.toNat).length
        + (instruction.wordAt 0).toNat) ?_ ?_ ?_ rfl rfl)
      (writesElements_of_opcode named ⟨nofun, nofun⟩)
    · exact (Nat.add_lt_add_left inside _).trans_eq List.length_append.symm
    · change before.arguments.toList.drop before.method.hasReceiver.toNat
          ++ (before.locals.setIfInBounds _ _).toList
        = (before.arguments.toList.drop before.method.hasReceiver.toNat
          ++ before.locals.toList).set _ _
      rw [Array.toList_setIfInBounds, List.set_append_right _ _ (Nat.le_add_right _ _),
        Nat.add_sub_cancel_left]
    · rintro other (isArgument | isLocal | isOperand)
      · exact .inl (.inl isArgument)
      · exact (Array.mem_or_eq_of_mem_setIfInBounds isLocal).imp_left fun known => .inr (.inl known)
      · refine .inl (.inr (.inr ?_))
        rw [show before.frame.operands = _ from isStack]
        exact .tail _ isOperand
  | @makesArray _ ref position _ named change isNew _ items =>
    have worked := tidy.working position change
    refine { worked with backed := { worked.backed with apart := ?_ } }
    refine (worked.backed.apart.storing (fun _ _ _ => Value.Unplaced.not_shares)
      fun _ unplaced => unplaced.isOn _).mono fun element isStored => isStored.imp_right ?_
    rintro ⟨other, place, writes, isThere⟩
    cases writes with
    | element otherHolds otherNamed =>
      cases otherHolds.instruction_eq holds
      cases named.symm.trans otherNamed
    | array _ _ otherNew =>
      have same : other = ref := congrArg ArrayRef.mk (otherNew.trans isNew.symm)
      exact items place element (same ▸ isThere)
  | storesElement named count isStack reads stores =>
    rcases Heap.setItem_ok stores with ⟨place, found, rfl⟩
    exact tidy.replace holds named count isStack reads found
  | @loadsFunction lambda _ named =>
    have same : (before.heap.delegate lambda).2.objects = before.heap.objects := by
      unfold Heap.delegate
      cases before.heap.delegates[lambda.cell]? with
      | some | none => rfl
    refine Tidy.writesNone holds ⟨tidy.backed.delegate tidy.isOn_holders _, ?_, ?_⟩
      (writesElements_of_opcode named ⟨nofun, nofun⟩)
    · intro value has
      have le := (Heap.retains_of_objects same).objects
      rcases has with isArgument | isLocal | isOperand
      · exact Heap.isOn_of_le le (tidy.values value (.inl isArgument))
      · exact Heap.isOn_of_le le (tidy.values value (.inr (.inl isLocal)))
      · rcases List.mem_cons.mp isOperand with rfl | below
        · trivial
        · exact Heap.isOn_of_le le (tidy.values value (.inr (.inr below)))
    · intro value isReceiver
      refine (tidy.receiver value isReceiver).mono fun cell member => ?_
      change cell ∈ (before.heap.delegate lambda).2.functions
      unfold Heap.delegate
      cases before.heap.delegates[lambda.cell]? with
      | some => exact member
      | none => exact Array.mem_push_of_mem _ member

end Stance

/-! ## Steps -/

namespace Machine

variable {host : Host} {machine : Machine} {depth : Nat} {Good : CompiledMethod -> Prop}
  {Fine : Frame -> Nat -> Prop} {Excused : RuntimeError -> Prop}

/-- The values that a step puts into elements of arrays: a frame executes an
instruction that does so, and goes on with the next. -/
def Puts (before after : Machine) (value : Value) : Prop :=
  ∃ frame next, before.control = .instruction frame ∧ after.control = .instruction next
    ∧ frame.Puts before.heap after.heap value

/-- The outcome of a step leaves the variables apart, also from what the step
puts into elements. -/
def PutsTidily (catalog : Catalog) (stored : Value -> Prop) (before : Machine) : Progress -> Prop
  | .running next => next.Tidy catalog fun element => stored element ∨ before.Puts next element
  | .ended _ => True

theorem Tidy.mono (tidy : machine.Tidy catalog stored)
    (within : ∀ element, fewer element -> stored element) : machine.Tidy catalog fewer :=
  { tidy with backed := { tidy.backed with apart := tidy.backed.apart.mono within } }

theorem LeavesTidy.puts {progress : Progress} (left : LeavesTidy catalog stored progress)
    (calm : ∀ next element, progress = .running next -> ¬ machine.Puts next element) :
    PutsTidily catalog stored machine progress := by
  cases progress with
  | ended => trivial
  | running next =>
    exact left.mono fun element isStored => isStored.resolve_right (calm next element rfl)

theorem mayReceive_of_mayCall {stance : Stance}
    (receiver : ∀ value, stance.frame.receiver? = some value -> heap.MayReceive value)
    (known : stance.MayCall catalog callee) (value : Value)
    (isReceiver : (Control.call callee).receiver? = some value) : heap.MayReceive value := by
  cases callee with
  | method =>
    rcases known with ⟨_, isNone⟩ | ⟨_, isOwn⟩
    · cases isNone.symm.trans isReceiver
    · exact receiver value (isOwn.symm.trans isReceiver)
  | host | function => cases isReceiver

theorem offered_of_mayCall {stance : Stance} (known : stance.MayCall catalog callee) :
    (Control.call callee).Offered catalog := by
  cases callee with
  | host => exact known
  | method | function => trivial

theorem putsTidily_instruction
    (tidy : Machine.Tidy host.catalog stored ⟨.instruction frame, waiting, depth, heap⟩)
    (inOrder : frame.InOrder Good Fine 0) (upkeep : Frame.Upkeep host.catalog Good Fine) :
    PutsTidily host.catalog stored ⟨.instruction frame, waiting, depth, heap⟩
      (instruction host frame waiting depth heap) := by
  rcases inOrder.executes upkeep heap with ⟨instruction, holds, admitted, _, executes⟩
  let stance := Running.stance ⟨frame, heap⟩
  have before : stance.Tidy host.catalog stored waiting := ⟨tidy.backed, tidy.control, tidy.receiver⟩
  unfold Machine.instruction
  cases ran : Execute.instruction host.catalog ⟨frame, heap⟩ with rw [ran] at executes
  | error error after =>
    have changed := tidy.backed.change before.isOn_holders executes.1 nofun
    refine LeavesTidy.puts (leavesTidy_refuse changed.1.drop error) ?_
    rintro _ _ ⟨⟩ ⟨_, _, _, isNext, _⟩
    cases isNext
  | ok _ after =>
    cases executes with
    | next _ _ _ moves =>
      have moved := before.moves holds ?_ moves
      · refine ⟨{ moved.backed with apart := moved.backed.apart.mono ?_ }, moved.values,
          moved.receiver, trivial⟩
        rintro element (isStored | ⟨_, _, isFrame, _, puts⟩)
        · exact .inl isStored
        · cases isFrame
          exact .inr puts
      · intro named hasReceiver
        have hasReceiver : frame.method.hasReceiver = true := hasReceiver
        unfold CompiledMethod.admits at admitted
        rw [named, hasReceiver] at admitted
        exact of_decide_eq_true admitted
    | call still _ removal known given =>
      have sameHeap : after.heap = heap := congrArg Stance.heap still
      have sameHolders : after.frame.holders = frame.holders := congrArg (·.frame.holders) still
      have sameReceiver : after.frame.receiver? = frame.receiver? := congrArg (·.frame.receiver?) still
      have sameArguments : after.frame.arguments = frame.arguments := congrArg Stance.arguments still
      have sameLocals : after.frame.locals = frame.locals := congrArg Stance.locals still
      have isOn (value : Value) (has : after.frame.Has value) : value.IsOn heap := by
        apply tidy.control value
        rcases has with isArgument | isLocal | isOperand
        · exact .inl (sameArguments ▸ isArgument)
        · exact .inr (.inl (sameLocals ▸ isLocal))
        · rcases removal with ⟨taken, _, isWhole⟩
          have isWhole : frame.operands = taken ++ after.frame.operands := isWhole
          exact .inr (.inr (isWhole ▸ List.mem_append_right taken isOperand))
      refine LeavesTidy.puts ?_ (by
        rintro _ _ ⟨⟩ ⟨_, _, _, isNext, _⟩
        cases isNext)
      change Machine.Tidy _ _ ⟨.call _, .frame after.frame _ :: waiting, _, after.heap⟩
      rw [sameHeap]
      refine ⟨⟨before.backed.closed, before.backed.offered,
        List.forall_mem_cons.mpr ⟨isOn, before.backed.values⟩,
        List.forall_mem_cons.mpr ⟨fun value isReceiver =>
          before.receiver value (sameReceiver.symm.trans isReceiver), before.backed.receivers⟩, ?_⟩,
        fun value has => before.isOn_given value (given value has),
        mayReceive_of_mayCall before.receiver known, offered_of_mayCall known⟩
      change Heap.Apart heap _ ([] ++ (after.frame.holders ++ waiting.flatMap Activation.holders))
      rw [sameHolders]
      exact before.backed.apart
    | leave _ sameHeap given =>
      have sameHeap : after.heap = heap := sameHeap
      refine LeavesTidy.puts ?_ (by
        rintro _ _ ⟨⟩ ⟨_, _, _, isNext, _⟩
        cases isNext)
      change Machine.Tidy _ _ ⟨.give _, waiting, _, after.heap⟩
      rw [sameHeap]
      refine ⟨before.backed.drop, ?_, nofun, trivial⟩
      rintro _ ⟨⟩
      rcases given with isGiven | unplaced
      · exact before.isOn_given _ isGiven
      · exact unplaced.isOn heap

/-- One step of a machine that is tidy and in order. -/
theorem Tidy.putsTidily_step (tidy : machine.Tidy host.catalog stored)
    (inOrder : machine.InOrder Excused Good Fine) (upkeep : Frame.Upkeep host.catalog Good Fine)
    (orderly : host.natives.Orderly) (grounded : host.natives.Grounded)
    (spared : ∀ error : RuntimeError, ¬ error.BlamesCode -> Excused error) :
    PutsTidily host.catalog stored machine (machine.step host) := by
  rcases machine with ⟨control, waiting, depth, heap⟩
  have calm (idle : ∀ frame, control ≠ .instruction frame) {progress : Progress}
      (left : LeavesTidy host.catalog stored progress) :
      PutsTidily host.catalog stored ⟨control, waiting, depth, heap⟩ progress := by
    refine left.puts ?_
    rintro _ _ _ ⟨frame, _, isFrame, _⟩
    exact idle frame isFrame
  refine step_rule ?_ ?_ ?_ ?_ ?_
  · rintro frame rfl
    exact putsTidily_instruction tidy inOrder.control upkeep
  · rintro result rfl
    refine calm nofun (leavesTidy_give tidy.backed (fun resume counts member => ?_) tidy.control)
    exact ⟨Excused, inOrder.waiting _ member result heap inOrder.control⟩
  · rintro _ rfl error _
    exact calm nofun (leavesTidy_refuse tidy.backed error)
  · rintro _ _ _ _ _ _ rfl enters entered
    refine calm nofun ?_
    cases enters with
    | method =>
      exact leavesTidy_enter tidy.backed entered (fun value isReceiver =>
        ⟨tidy.receiver value isReceiver, tidy.control value (.inl isReceiver)⟩)
        fun value member => tidy.control value (.inr member)
    | function _ known isBody =>
      exact leavesTidy_enter tidy.backed entered (fun target isTarget =>
        ⟨.inr ⟨_, _, known, isBody, isTarget⟩, tidy.backed.closed.targets _ known target isTarget⟩)
        tidy.control
  · rintro callee function call counts rfl performs
    have backs := tidy.backed
    refine calm nofun (leavesTidy_hostStep backs
      (function.action.orderly_perform orderly spared call heap)
      (HostAction.grounded_perform grounded backs.closed ?_))
    cases performs with
    | host =>
      rintro value (has | fixes)
      · exact tidy.control value has
      · exact backs.offered.functions _ tidy.offered value fixes
    | function _ known isBody =>
      rintro value ((isTarget | member) | fixes)
      · exact backs.closed.targets _ known value isTarget
      · exact tidy.control value member
      · exact backs.closed.natives _ known _ isBody value fixes

/-- The values that the frames of a run have put into elements of arrays. -/
def Stored (host : Host) (start reached : Machine) (value : Value) : Prop :=
  ∃ storing next, Reaches host start storing
    ∧ storing.Puts next value ∧ storing.step host = .running next ∧ Reaches host next reached

section

variable {start middle reached : Machine}
  (inOrder : start.InOrder (Accounted host Good Fine start) Good Fine)
  (upkeep : Frame.Upkeep host.catalog Good Fine)
  (agrees : ∀ reached, Reaches host start reached -> reached.Agrees host.catalog Fine)
  (orderly : host.natives.Orderly) (grounded : host.natives.Grounded)

include inOrder upkeep agrees orderly grounded

theorem Tidy.putsTidily_reached (tidy : middle.Tidy host.catalog stored)
    (reaches : Reaches host start middle) :
    PutsTidily host.catalog stored middle (middle.step host) :=
  tidy.putsTidily_step (InOrder.reached orderly upkeep agrees inOrder reaches) upkeep orderly
    grounded fun _ spared blames => absurd blames spared

/-- A run keeps the variables apart. -/
theorem Tidy.onward (tidy : middle.Tidy host.catalog stored) (earlier : Reaches host start middle)
    (later : Reaches host middle reached) : reached.Tidy host.catalog stored := by
  induction later with
  | refl => exact tidy
  | step taken _ ih =>
    have left := tidy.putsTidily_reached inOrder upkeep agrees orderly grounded earlier
    rw [taken] at left
    exact ih (left.mono fun _ => .inl) (earlier.trans (.single taken))

/-- A run keeps the variables apart from the elements that it has written. -/
theorem Tidy.apart_stored (tidy : start.Tidy host.catalog stored)
    (run : Reaches host start reached) :
    reached.heap.Apart (Stored host start reached) reached.holders := by
  -- Each element is looked at on a path on which it was written.
  have written {element : Value} (isStored : Stored host start reached element) :
      ∃ writes : Value -> Prop, writes element ∧ reached.heap.Apart writes reached.holders := by
    rcases isStored with ⟨storing, next, before, puts, taken, after⟩
    have storingTidy := tidy.onward inOrder upkeep agrees orderly grounded (.refl start) before
    have left := storingTidy.putsTidily_reached inOrder upkeep agrees orderly grounded before
    rw [taken] at left
    exact ⟨_, .inr puts, (left.onward inOrder upkeep agrees orderly grounded
      (before.trans (.single taken)) after).backed.apart⟩
  have here := tidy.onward inOrder upkeep agrees orderly grounded (.refl start) run
  refine ⟨here.backed.apart.pairwise, ?_, ?_⟩
  · intro holder member element isStored
    rcases written isStored with ⟨writes, isWritten, apart⟩
    exact apart.elements holder member element isWritten
  · intro element isStored
    rcases written isStored with ⟨writes, isWritten, apart⟩
    exact apart.present element isWritten

end

end Machine

/-! ## Whole runs -/

/-- What is seen of an object through a value. -/
def Heap.seen (heap : Heap) : Value -> Option ObjectCell
  | .object ref => some (heap.object ref)
  | _ => none

/-- A value object that is written is not seen through a value that does not
share it. -/
theorem Heap.seen_setPayload (isValue : (heap.object ref).isValue = true)
    (apart : ¬ Value.Shares heap (.object ref) other) (payload : Payload) :
    (heap.setPayload ref payload).seen other = heap.seen other := by
  cases other with
  | object seen =>
    have different : ref ≠ seen := fun same => apart ⟨ref, rfl, same ▸ rfl, isValue⟩
    exact congrArg some (heap.object_setPayload_of_ne different payload)
  | _ => rfl

/-- The variables of all live frames hold value objects of their own.  No two of
them hold the same, none holds one that was put into an element, and what is
written to the object of one variable is not seen through the others.  The
remaining slots, those of receivers, hold what a function is bound to. -/
structure Machine.HoldsApart (machine : Machine) (stored : Value -> Prop) : Prop where
  holders : ∀ (first second : Nat) (one other : Value), first ≠ second ->
    machine.holders[first]? = some one -> machine.holders[second]? = some other ->
      ¬ one.Shares machine.heap other
  elements : ∀ holder, holder ∈ machine.holders -> ∀ element, stored element ->
    ¬ holder.Shares machine.heap element
  writes : ∀ (index : Nat) (ref : ObjectRef) (payload : Payload),
    machine.holders[index]? = some (.object ref) -> (machine.heap.object ref).isValue = true ->
      (∀ other value, index ≠ other -> machine.holders[other]? = some value ->
        (machine.heap.setPayload ref payload).seen value = machine.heap.seen value)
      ∧ ∀ element, stored element ->
        (machine.heap.setPayload ref payload).seen element = machine.heap.seen element
  receivers : ∀ value, machine.HasReceiver value -> machine.heap.MayReceive value

theorem Machine.Tidy.holdsApart {machine : Machine} (tidy : machine.Tidy catalog fewer)
    (apart : machine.heap.Apart stored machine.holders) : machine.HoldsApart stored := by
  have separate {first second : Nat} {one other : Value} (different : first ≠ second)
      (isOne : machine.holders[first]? = some one) (isOther : machine.holders[second]? = some other) :
      ¬ one.Shares machine.heap other := by
    rcases List.getElem?_eq_some_iff.mp isOne with ⟨inside, rfl⟩
    rcases List.getElem?_eq_some_iff.mp isOther with ⟨otherInside, rfl⟩
    have ordered := List.pairwise_iff_getElem.mp apart.pairwise
    rcases Nat.lt_or_gt_of_ne different with before | behind
    · exact ordered first second inside otherInside before
    · exact fun shares => ordered second first otherInside inside behind shares.symm
  refine ⟨fun _ _ _ _ => separate, apart.elements, fun index ref payload isHolder isValue =>
    ⟨?_, ?_⟩, ?_⟩
  · intro other value different isOther
    exact Heap.seen_setPayload isValue (separate different isHolder isOther) payload
  · intro element isStored
    have separated := apart.elements _ (List.mem_of_getElem? isHolder) element isStored
    exact Heap.seen_setPayload isValue separated payload
  · rintro value (isReceiver | ⟨activation, member, isReceiver⟩)
    · exact tidy.receiver value isReceiver
    · exact tidy.backed.receivers activation member value isReceiver

end

/-- Code that decodes, whatever its argument slots are. -/
def CompiledMethod.Decodable (catalog : Catalog) (method : CompiledMethod) : Prop :=
  ∃ instructions, method.Decodes catalog false instructions

/-- A heap of compiled functions on which nothing dangles. -/
structure Heap.Sound (catalog : Catalog) (heap : Heap) : Prop where
  code : heap.Throughout (CompiledMethod.Decodable catalog)
  closed : heap.Closed
  offered : catalog.IsOn heap

theorem Heap.Sound.addFunction {heap : Heap} (sound : heap.Sound catalog)
    {function : CompiledFunction}
    (decodes : function.method.Throughout (CompiledMethod.Decodable catalog)) :
    (heap.addFunction function.cell).2.Sound catalog := by
  refine ⟨?_, ⟨sound.closed.items, sound.closed.slots, ?_, ?_⟩, sound.offered.grow .refl⟩
  · intro cell method member isBody
    rcases Array.mem_push.mp member with known | rfl
    · exact sound.code cell method known isBody
    · cases isBody
      exact decodes
  · intro cell member target isTarget
    rcases Array.mem_push.mp member with known | rfl
    · exact sound.closed.targets cell known target isTarget
    · cases isTarget
  · intro cell member native isNative
    rcases Array.mem_push.mp member with known | rfl
    · exact sound.closed.natives cell known native isNative
    · cases isNative

theorem Heap.Sound.tidy (sound : heap.Sound catalog) (ref : FunctionRef)
    (isOn : ∀ value, value ∈ arguments -> value.IsOn heap) :
    (Machine.calling ref arguments heap).Tidy catalog fun _ => False where
  backed :=
    { closed := sound.closed
      offered := sound.offered
      values := nofun
      receivers := nofun
      apart := ⟨.nil, nofun, nofun⟩ }
  control := isOn
  receiver := nofun
  offered := trivial

/-- Variables never share value objects.  Whatever functions a source is compiled
to, whatever native functions there are that make up no references, and whatever
is called on a sound heap, at no time of a run do two variables of live frames
hold the same value object, nor does one hold an object that the run has put into
an array; so a write through one variable is not seen through another, and none
through an element.  The slot of a receiver, which is not copied, holds a value
object only if a function on the heap is bound to it.  The heap stays sound for
the next call. -/
theorem Make.variables_holdApart {definitions : List TypeDefinition} {built : Catalog}
    (isBuilt : Catalog.build definitions = .ok built) {source : Source} {id : SyntaxId}
    {before after : Workspace} {function : CompiledFunction} (asked : built.Asked before.catalog)
    (compiles : Make.declaration source id before = .ok function after)
    {host : Host} (askedLater : after.catalog.Asked host.catalog)
    (orderly : host.natives.Orderly) (grounded : host.natives.Grounded)
    {heap : Heap} (sound : heap.Sound host.catalog) (called : FunctionRef) {arguments : List Value}
    (isOn : ∀ value, value ∈ arguments -> value.IsOn heap) {reached : Machine}
    (reaches : Machine.Reaches host
      (.calling called arguments (heap.addFunction function.cell).2) reached) :
    reached.heap.Sound host.catalog
      ∧ reached.HoldsApart (Machine.Stored host
        (.calling called arguments (heap.addFunction function.cell).2) reached) := by
  have coherent := asked.grows.coherent (Catalog.coherent_build isBuilt)
  have decodes : function.method.Throughout (CompiledMethod.Decodable host.catalog) :=
    Make.throughout_declaration (fun _ isCoherent grows encodes =>
      ⟨_, encodes.decodes isCoherent grows nofun⟩) coherent compiles askedLater.grows
  have added := sound.addFunction decodes
  have upkeep : Frame.Upkeep host.catalog (CompiledMethod.Decodable host.catalog) _ :=
    .of_decodes fun _ decodes => decodes
  have tidy := added.tidy called fun value member => Heap.isOn_of_le (Nat.le_refl _) (isOn value member)
  let start := Machine.calling called arguments (heap.addFunction function.cell).2
  have inOrder : start.InOrder (Machine.Accounted host (CompiledMethod.Decodable host.catalog)
      (fun _ _ => True) start) (CompiledMethod.Decodable host.catalog) (fun _ _ => True) :=
    ⟨trivial, nofun, added.code⟩
  have agrees (machine : Machine) (_ : Machine.Reaches host start machine) :
      machine.Agrees host.catalog fun _ _ => True := fun _ _ _ _ _ _ _ _ => trivial
  have here := tidy.onward inOrder upkeep agrees orderly grounded (.refl _) reaches
  have apart := tidy.apart_stored inOrder upkeep agrees orderly grounded reaches
  have functions := (Machine.InOrder.reached orderly upkeep agrees inOrder reaches).functions
  exact ⟨⟨functions, here.backed.closed, here.backed.offered⟩, here.holdsApart apart⟩

/-! ## Catalogs that bring nothing along -/

/-- An action that brings no value along. -/
def HostAction.isBare : HostAction -> Bool
  | .native _ captured => captured.isEmpty
  | .getMember access => access.fixed.isNone
  | _ => true

theorem HostAction.not_fixes_of_isBare {action : HostAction} (bare : action.isBare = true)
    (value : Value) : ¬ action.Fixes value := by
  cases action with
  | native _ captured =>
    rw [List.isEmpty_iff.mp (bare : captured.isEmpty = true)]
    exact List.not_mem_nil
  | getMember access =>
    rw [Fixes, Option.isNone_iff_eq_none.mp bare]
    exact nofun
  | _ => exact id

def MethodEntry.isBare (entry : MethodEntry) : Bool :=
  match entry.body with
  | .host function => function.action.isBare
  | .delegateInvoke => true

def FieldEntry.isBare (entry : FieldEntry) : Bool := entry.access.fixed.isNone

def PropertyEntry.isBare (entry : PropertyEntry) : Bool := entry.getter.all (·.action.isBare)

/-- A definition none of whose members brings a value along. -/
def TypeDefinition.isBare (definition : TypeDefinition) : Bool :=
  let type := Catalog.hostType definition none
  type.constructors.all MethodEntry.isBare && type.methods.all MethodEntry.isBare
    && type.fields.all FieldEntry.isBare && type.properties.all PropertyEntry.isBare

namespace Catalog

/-- A catalog in which nothing has been closed and no member brings a value
along. -/
structure Bare (catalog : Catalog) : Prop where
  methods : ∀ (hash : TypeHash) entry, catalog.methods[hash]? = some entry ->
    entry.isBare = true
  fields : ∀ (hash : TypeHash) entry, catalog.fields[hash]? = some entry ->
    entry.isBare = true
  properties : ∀ (hash : TypeHash) entry, catalog.properties[hash]? = some entry ->
    entry.isBare = true
  closedMethods : ∀ hash : TypeHash, catalog.closedMethods[hash]? = none

variable {before after : Catalog}

theorem Bare.foldlM {Item : Type} {add : Catalog -> Item -> Except RegistrationError Catalog}
    {isBare : Item -> Bool} (step : ∀ before item after, Bare before -> isBare item = true ->
      add before item = .ok after -> Bare after) {items : List Item}
    (all : items.all isBare = true) (bare : before.Bare)
    (added : items.foldlM add before = .ok after) : after.Bare := by
  induction items generalizing before with
  | nil =>
    cases added
    exact bare
  | cons head _ ih =>
    obtain ⟨middle, first, rest⟩ := ok_of_bind added
    rw [List.all_cons, Bool.and_eq_true] at all
    exact ih all.2 (step before head middle bare all.1 first) rest

theorem Bare.addMethod (bare : before.Bare) (isBare : entry.isBare = true)
    (added : before.addMethod typeName entry = .ok after) : after.Bare := by
  unfold Catalog.addMethod at added
  split at added <;> cases added
  refine { bare with methods := fun hash other found => ?_ }
  rcases inserted_or_found found with ⟨_, rfl⟩ | earlier
  · exact isBare
  · exact bare.methods hash other earlier

theorem Bare.register (bare : before.Bare) {definition : TypeDefinition}
    (isBare : definition.isBare = true) (registered : before.register definition = .ok after) :
    after.Bare := by
  simp only [TypeDefinition.isBare, Bool.and_eq_true] at isBare
  obtain ⟨⟨⟨constructors, methods⟩, fields⟩, properties⟩ := isBare
  obtain ⟨base, _, registered⟩ := ok_of_bind registered
  obtain ⟨_, constructorsAdded, registered⟩ := ok_of_bind registered
  obtain ⟨_, methodsAdded, registered⟩ := ok_of_bind registered
  obtain ⟨_, fieldsAdded, registered⟩ := ok_of_bind registered
  obtain ⟨_, propertiesAdded, registered⟩ := ok_of_bind registered
  cases registered
  have first := bare.foldlM (fun _ _ _ bare => bare.addMethod) constructors constructorsAdded
  have second := first.foldlM (fun _ _ _ bare => bare.addMethod) methods methodsAdded
  have third := second.foldlM (fun _ entry _ bare isBare added => ?_) fields fieldsAdded
  · have last := third.foldlM (fun _ entry _ bare isBare added => ?_) properties propertiesAdded
    · exact { last with }
    · unfold addProperty at added
      split at added <;> cases added
      refine { bare with properties := fun hash other found => ?_ }
      rcases inserted_or_found found with ⟨_, rfl⟩ | earlier
      · exact isBare
      · exact bare.properties hash other earlier
  · unfold addField at added
    split at added <;> cases added
    refine { bare with fields := fun hash other found => ?_ }
    rcases inserted_or_found found with ⟨_, rfl⟩ | earlier
    · exact isBare
    · exact bare.fields hash other earlier

theorem bare_build (built : build definitions = .ok catalog)
    (all : (SystemTypes.definitions ++ definitions).all TypeDefinition.isBare = true) :
    catalog.Bare := by
  obtain ⟨_, names, members⟩ := ok_of_bind built
  have empty : Bare {} := by constructor <;> simp
  have named := empty.foldlM (fun _ _ _ bare _ added => ?_) (List.all_eq_true.mpr fun _ _ => rfl) names
  · exact named.foldlM (fun _ _ _ bare => bare.register) all members
  · unfold addName at added
    split at added <;> cases added
    exact { bare with }

/-- The values of a catalog that brings none along are on every heap. -/
theorem Bare.isOn {catalog : Catalog} (bare : catalog.Bare) (coherent : catalog.Coherent) (heap : Heap) :
    catalog.IsOn heap := by
  have ofMethod {hash : TypeHash} {entry : MethodEntry} (found : catalog.method? hash = some entry) :
      entry.isBare = true := by
    unfold method? at found
    cases listed : catalog.methods[hash]? with rw [listed] at found
    | some =>
      cases found
      exact bare.methods hash entry listed
    | none => cases (bare.closedMethods hash).symm.trans found
  have ofProperty {entry : PropertyEntry} {function : HostFunction} (isBare : entry.isBare = true)
      (isAccessor : entry.getter = some function
        ∨ ∃ setter, entry.setter = some setter ∧ setter.function = function) :
      function.action.isBare = true := by
    rcases isAccessor with isGetter | ⟨setter, _, rfl⟩
    · rwa [PropertyEntry.isBare, isGetter] at isBare
    · rfl
  constructor
  · rintro value ⟨hash, field, found, isFixed⟩
    have isBare := bare.fields hash field found
    rw [FieldEntry.isBare, isFixed] at isBare
    cases isBare
  · intro function offers value fixes
    refine absurd fixes (HostAction.not_fixes_of_isBare ?_ value)
    cases offers with
    | @method entry chosen _ _ found isChosen isBody =>
      have chosenBare : chosen.isBare = true := by
        rcases isChosen with rfl | ⟨type, rfl⟩
        · exact ofMethod found
        · rcases coherent.overriding_eq_or_registered type entry with same | registered
          · rw [same]
            exact ofMethod found
          · exact bare.methods _ _ registered
      rwa [MethodEntry.isBare, isBody] at chosenBare
    | accessor found isChosen isAccessor =>
      refine ofProperty ?_ isAccessor
      rcases isChosen with rfl | ⟨type, rfl⟩
      · exact bare.properties _ _ found
      · unfold overridingProperty
        cases other : catalog.findProperty? type _ with
        | none => exact bare.properties _ _ found
        | some => exact bare.properties _ _ (coherent.property?_of_findProperty? other)

end Catalog

namespace Spin

/-- `void Keep(p, q) { q = p; }` -/
def keep : CompiledMethod where
  name := "Keep"
  parameterCount := 2
  hasReceiver := false
  localCount := 0
  returnsValue := false
  chunk := ⟨#[⟨Opcode.getArg.toByte, 0⟩, ⟨0, 0⟩, ⟨Opcode.setArg.toByte, 0⟩, ⟨1, 0⟩,
    ⟨Opcode.returnVoid.toByte, 0⟩]⟩
  pool := {}
  lambdas := []
  callees := []

/-- A value object, another one that refers to it, and a function that stores one
argument in the other. -/
def heap : Heap where
  objects := #[⟨.empty, .text "", true⟩,
    ⟨.empty, .record ⟨"Outer"⟩ [("Inner", .object (.place 0))], true⟩]
  functions := #[⟨.empty, ⟨[.empty, .empty], none⟩, none, .compiled keep⟩]

theorem decodable_keep : keep.Decodable registry := by
  let code : List Instruction :=
    [⟨.getArg, [0], rfl⟩, ⟨.setArg, [1], rfl⟩, ⟨.returnVoid, [], rfl⟩]
  refine ⟨code, rfl, by decide, ?_, code.dropLast, ⟨.returnVoid, [], rfl⟩, rfl, .inr rfl⟩
  intro position instruction member isJump
  have straight : ∀ placed, placed ∈ Instruction.place 0 code ->
      placed.2.opcode.isJump = false := by decide
  cases isJump.symm.trans (straight (position, instruction) member)

theorem sound_heap : heap.Sound registry where
  code := by
    intro cell method member isBody
    cases Array.mem_singleton.mp member
    cases isBody
    exact .intro decodable_keep nofun nofun
  closed := by
    refine ⟨?_, ?_, ?_, ?_⟩
    · exact fun _ none => absurd none (Array.not_mem_empty _)
    · intro cell member slot isSlot
      simp only [heap, List.mem_toArray, List.mem_cons, List.not_mem_nil, or_false] at member
      rcases member with rfl | rfl
      · cases isSlot
      · cases List.mem_singleton.mp isSlot
        exact Nat.two_pos
    · intro cell member target isTarget
      cases Array.mem_singleton.mp member
      cases isTarget
    · intro cell member native isNative
      cases Array.mem_singleton.mp member
      cases isNative
  offered := (Catalog.bare_build isBuilt_registry (by decide +kernel)).isOn coherent_registry heap

end Spin

/-- The same object is handed over twice and one argument is stored in the other,
and there is a copy in each of the two variables.  The value object that the
first one refers to is shared by the copies. -/
theorem spin_variables_holdApart : Catalog.build [] = .ok Spin.registry
    ∧ ∃ function after,
      Make.declaration Spin.source ⟨1⟩ { catalog := Spin.registry } = .ok function after
      ∧ ∃ reached : Machine, Machine.Reaches { catalog := Spin.registry }
          (.calling ⟨0⟩ [.object (.place 1), .object (.place 1)] (Spin.heap.addFunction function.cell).2)
          reached
        ∧ reached.holders = [.object (.place 2), .object (.place 4)]
        ∧ (reached.heap.object (.place 2)).payload.slots = [("Inner", .object (.place 0))]
        ∧ (reached.heap.object (.place 4)).payload.slots = [("Inner", .object (.place 0))]
        ∧ (reached.heap.object (.place 0)).isValue = true
        ∧ reached.heap.Sound Spin.registry
        ∧ reached.HoldsApart (Machine.Stored { catalog := Spin.registry }
          (.calling ⟨0⟩ [.object (.place 1), .object (.place 1)] (Spin.heap.addFunction function.cell).2)
          reached) := by
  rcases Spin.declaration_registry with ⟨function, compiles⟩
  -- The function is entered, and the first two instructions run.
  have reaches : Machine.Reaches { catalog := Spin.registry } (.calling ⟨0⟩
      [.object (.place 1), .object (.place 1)] (Spin.heap.addFunction function.cell).2) _ :=
    .step rfl (.step rfl (.step rfl (.refl _)))
  refine ⟨Spin.isBuilt_registry, function, _, compiles, _, reaches, rfl, rfl, rfl, rfl, ?_⟩
  refine Make.variables_holdApart Spin.isBuilt_registry .nothing compiles .nothing
    Natives.orderly_silent Natives.grounded_silent Spin.sound_heap ⟨0⟩ ?_ reaches
  intro value member
  rcases List.mem_pair.mp member with rfl | rfl
  · exact Nat.one_lt_two
  · exact Nat.one_lt_two

end OpMachine
