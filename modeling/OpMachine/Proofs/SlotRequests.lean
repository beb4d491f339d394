import OpMachine.Proofs.Compilation

namespace OpMachine

/-!
# Requests for slots

Locals and temporaries take their slots from one counter.  In every sequence of
requests two are granted the same slot just if they declare the same local, and
the slots below the counter are the granted ones.  A request is refused when all
slots are taken, and then it changes nothing.
-/

open Compile SlotTable

/-- A request for the slot of a local, or for one without a name. -/
inductive SlotRequest where
  | declaration (symbol : LocalSymbol)
  | temporary

namespace SlotRequest

def compute : SlotRequest -> Compile UInt16
  | .declaration symbol => declareLocal symbol
  | .temporary => freshSlot

def local? : SlotRequest -> Option SymbolId
  | .declaration symbol => some symbol.id
  | .temporary => none

/-- The slot of a declared local, or else a new one unless there are no more. -/
theorem compute_eq (request : SlotRequest) (body : Body) : request.compute body =
    match request.local?.bind (body.slots.locals[·]?) with
    | some slot => .ok slot body
    | none =>
        if body.slots.localCount < maximumLocals then
          .ok body.slots.localCount.toUInt16 { body with slots := { body.slots with
            localCount := body.slots.localCount + 1
            locals := request.local?.elim body.slots.locals
              (body.slots.locals.insert · body.slots.localCount.toUInt16) } }
        else .error (.unsupportedShape "method with more than 65535 locals") body := by
  cases request with
  | temporary =>
    by_cases small : body.slots.localCount < maximumLocals <;>
      simp [compute, freshSlot, withSlots, fresh, local?, small]
  | declaration symbol =>
    simp only [compute, declareLocal, withSlots, declare, fresh, local?, Option.bind_some]
    cases body.slots.locals[symbol.id]? with
    | some => rfl
    | none => by_cases small : body.slots.localCount < maximumLocals <;> simp only [small] <;> rfl

/-- Makes a request of a body, and notes who is granted which slot. -/
def note : List (Option SymbolId × UInt16) × Body -> SlotRequest ->
    List (Option SymbolId × UInt16) × Body
  | (granted, body), request =>
      match request.compute body with
      | .ok slot after => ((request.local?, slot) :: granted, after)
      | .error _ after => (granted, after)

/-- The slots that were granted are those of a table. -/
structure Recorded (granted : List (Option SymbolId × UInt16)) (table : SlotTable) : Prop where
  bounded : table.localCount ≤ maximumLocals
  counted : ∀ number, number < table.localCount
    ↔ ∃ owner slot, (owner, slot) ∈ granted ∧ slot.toNat = number
  locals : ∀ id slot, table.locals[id]? = some slot ↔ (some id, slot) ∈ granted
  owned : ∀ id owner slot, (some id, slot) ∈ granted -> (owner, slot) ∈ granted ->
    owner = some id
  apart : granted.Pairwise fun later earlier =>
    later.2 = earlier.2 ↔ later.1 ≠ none ∧ later.1 = earlier.1

/-- A request is granted, or it is one for a new slot when all are taken, and
then nothing changes. -/
def Answered (granted : List (Option SymbolId × UInt16)) (body : Body) (request : SlotRequest) :
    Prop :=
  match request.compute body with
  | .ok slot after => Recorded ((request.local?, slot) :: granted) after.slots
  | .error _ after => body.slots.localCount = maximumLocals ∧ after = body
      ∧ ∀ id slot, request.local? = some id -> (some id, slot) ∉ granted

variable {granted : List (Option SymbolId × UInt16)} {table later : SlotTable} {body : Body}
  {owner : Option SymbolId} {id : SymbolId}

/-- A new slot is none that was granted before. -/
theorem Recorded.fresh (recorded : Recorded granted table)
    (small : table.localCount < maximumLocals)
    (undeclared : ∀ id, owner = some id -> table.locals[id]? = none)
    (count : later.localCount = table.localCount + 1)
    (locals : ∀ id, later.locals[id]? = if owner = some id
      then some table.localCount.toUInt16 else table.locals[id]?) :
    Recorded ((owner, table.localCount.toUInt16) :: granted) later := by
  obtain ⟨_, counted, declared, owned, apart⟩ := recorded
  have isNew : table.localCount.toUInt16.toNat = table.localCount :=
    UInt16.toNat_ofNat_of_lt (Nat.lt_succ_of_lt small)
  have unused (other) : (other, table.localCount.toUInt16) ∉ granted := fun member =>
    absurd isNew (Nat.ne_of_lt ((counted _).mpr ⟨other, _, member, rfl⟩))
  refine ⟨count ▸ small, fun number => ?_, fun id other => ?_, ?_, .cons ?_ apart⟩
  · have before := counted number
    grind
  · have before := declared id other
    grind
  · grind
  · -- A local that has a slot among these was declared.
    rintro ⟨other, earlier⟩ member
    cases owner with
    | none => grind
    | some id =>
      have before := declared id earlier
      grind

/-- A local that is declared again has the slot it was granted first. -/
theorem Recorded.again (recorded : Recorded granted table)
    (found : table.locals[id]? = some slot) : Recorded ((some id, slot) :: granted) table := by
  obtain ⟨bounded, counted, declared, owned, apart⟩ := recorded
  have member := (declared _ _).mp found
  refine ⟨bounded, fun number => ?_, fun other => ?_, ?_, .cons ?_ apart⟩
  · have before := counted number
    grind
  · grind
  · grind
  · grind

theorem Recorded.compute (recorded : Recorded granted body.slots) (request : SlotRequest) :
    Answered granted body request := by
  rw [Answered, compute_eq]
  cases found : request.local?.bind (body.slots.locals[·]?) with
  | some slot =>
    obtain ⟨id, isLocal, isSlot⟩ := Option.bind_eq_some_iff.mp found
    exact isLocal ▸ recorded.again isSlot
  | none =>
    by_cases small : body.slots.localCount < maximumLocals
    · simp only [if_pos small]
      refine recorded.fresh small (Option.bind_eq_none_iff.mp found) rfl fun id => ?_
      cases request.local? with
      | none => rfl
      | some => simp [Std.HashMap.getElem?_insert]
    · simp only [if_neg small]
      refine ⟨Nat.le_antisymm recorded.bounded (Nat.le_of_not_lt small), trivial, ?_⟩
      intro id slot isLocal member
      have undeclared := Option.bind_eq_none_iff.mp found id isLocal
      cases undeclared.symm.trans ((recorded.locals id slot).mpr member)

theorem Recorded.run (recorded : Recorded granted body.slots) (requests : List SlotRequest) :
    Recorded (requests.foldl note (granted, body)).1
      (requests.foldl note (granted, body)).2.slots := by
  induction requests generalizing granted body with
  | nil => exact recorded
  | cons request _ ih =>
    have step := recorded.compute request
    rw [List.foldl_cons, note]
    cases made : request.compute body with rw [Answered, made] at step
    | ok => exact ih step
    | error =>
      obtain ⟨_, rfl, _⟩ := step
      exact ih recorded

/-- The slots of a method never collide, whatever is requested and in whatever
order.  A local is found under the slot that it was granted, and a request that
finds all slots taken fails and changes nothing. -/
theorem slots_apart (requests : List SlotRequest) (body : Body) (method : MethodSymbol)
    (hasReceiver : Bool) : ∃ granted after,
      requests.foldl note ([], { body with slots := .ofMethod method hasReceiver })
          = (granted, after)
        ∧ Recorded granted after.slots
        ∧ (∀ symbol slot, after.slots.localSlot symbol = .ok slot
          ↔ (some symbol.id, slot) ∈ granted)
        ∧ ∀ request, Answered granted after request := by
  have start : Recorded [] (ofMethod method hasReceiver) :=
    ⟨Nat.zero_le _, by simp [ofMethod], by simp [ofMethod], nofun, .nil⟩
  have recorded := @Recorded.run [] { body with slots := .ofMethod method hasReceiver } start requests
  refine ⟨_, _, rfl, recorded, fun symbol slot => ?_, recorded.compute⟩
  rw [← recorded.locals, SlotTable.localSlot]
  split <;> simp_all

end SlotRequest
end OpMachine
