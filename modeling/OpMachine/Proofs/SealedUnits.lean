import OpMachine.Session

namespace OpMachine
namespace Session

/-!
# Histories of sessions

Sessions that share a numbering are started and asked in any order to open
units, to add methods and delegates to them and to seal them, whether the units
are there or not.  What was asked and answered determines the units: a sealed
unit holds what was added to it before, and nothing succeeds on it afterwards.
Requests that failed might as well not have been made.

The names of units embed texts from outside.  They are distinct all the same,
because the numbers in front of a text are written in digits and end at a point.
-/

/-! ## Requests -/

inductive Request where
  | openUnit (name : String)
  | addMethod (unit : Nat) (method : CompiledMethod)
  | addDelegate (unit : Nat)
  | sealUnit (unit : Nat)

namespace Request

/-- The unit that a request is about, unless it opens one. -/
def unit? : Request -> Option Nat
  | .openUnit _ => none
  | .addMethod unit _ | .addDelegate unit | .sealUnit unit => some unit

def method? : Request -> Option CompiledMethod
  | .addMethod _ method => some method
  | _ => none

/-- What a request makes of the draft of its unit. -/
def change : Request -> UnitDraft -> UnitDraft
  | .openUnit _, draft => draft
  | .addMethod _ method, draft => { draft with methods := draft.methods ++ [method] }
  | .addDelegate _, draft => { draft with hasDelegate := true }
  | .sealUnit _, draft => { draft with isSealed := true }

/-- The sealed unit that a request makes of the draft of its unit. -/
def result : Request -> UnitDraft -> Option CodeUnit
  | .sealUnit _, draft => some ⟨draft.id, draft.name, draft.methods, draft.hasDelegate⟩
  | _, _ => none

end Request

/-- The answer to a request, with the session and the numbering that follow.  A
request that fails has neither. -/
def handle (session : Session) (numbering : Numbering) :
    Request -> Except CompilationError (Option CodeUnit × Session × Numbering)
  | .openUnit name => return (none, (session.openUnit numbering name).2)
  | .addMethod unit method => return (none, ← session.addMethod unit method, numbering)
  | .addDelegate unit => return (none, ← session.addDelegate unit, numbering)
  | .sealUnit unit => do
    let (code, session) ← session.sealUnit unit
    return (some code, session, numbering)

/-- The name of a unit that is opened with a text. -/
def unitName (number unit : Nat) (text : String) : String :=
  "DynEmit.S" ++ toString number ++ ".U" ++ toString unit ++ "." ++ text

/-- All that a request can do. -/
inductive Handles (session : Session) (numbering : Numbering) :
    Request -> Option CodeUnit -> Session -> Numbering -> Prop
  | opened (name : String) : Handles session numbering (.openUnit name) none
      (session.openUnit numbering name).2.1 (session.openUnit numbering name).2.2
  | changed (request : Request) {unit : Nat} {draft : UnitDraft} (about : request.unit? = some unit)
      (isOpen : session.units[unit]? = some draft ∧ draft.isSealed = false)
      (current : Option Nat)
      (moves : current = session.current ∧ (request = .sealUnit unit -> session.current ≠ some unit)
        ∨ request = .sealUnit unit ∧ current = draft.parent) :
      Handles session numbering request (request.result draft)
        { session.setDraft unit (request.change draft) with current } numbering

/-! ## Histories -/

/-- A request to one of some sessions, with its answer. -/
structure Occurrence where
  session : Nat
  request : Request
  answer : Except CompilationError (Option CodeUnit)

/-- A success of a unit. -/
def Occurrence.concerns (index unit : Nat) (event : Occurrence) : Bool :=
  event.answer.isOk && event.session == index && event.request.unit? == some unit

/-- The requests about a unit that have succeeded.  Here and in histories the
latest comes first. -/
def successes (index unit : Nat) (events : List Occurrence) : List Request :=
  (events.filter (·.concerns index unit)).map Occurrence.request

/-- Sessions that were started and asked in any order. -/
inductive History (origin : Numbering) : List Occurrence -> Numbering -> Array Session -> Prop
  | none : History origin [] origin #[]
  | started (earlier : History origin events numbering sessions) :
      History origin events (start numbering).2 (sessions.push (start numbering).1)
  | answered (earlier : History origin events numbering sessions)
      (isThere : sessions[index]? = some session)
      (handled : session.handle numbering request = .ok (answer, after, next)) :
      History origin (⟨index, request, .ok answer⟩ :: events) next
        (sessions.setIfInBounds index after)
  | refused (earlier : History origin events numbering sessions)
      (isThere : sessions[index]? = some session)
      (failed : session.handle numbering request = .error error) :
      History origin (⟨index, request, .error error⟩ :: events) numbering sessions

/-- A unit of one of some sessions. -/
def Placed (sessions : Array Session) (index unit : Nat) (draft : UnitDraft) : Prop :=
  ∃ session, sessions[index]? = some session ∧ session.units[unit]? = some draft

/-! ## What requests do -/

variable {session after : Session} {numbering next origin : Numbering} {request : Request}
  {answer : Option CodeUnit} {unit index : Nat} {draft : UnitDraft} {sessions : Array Session}
  {events : List Occurrence} {event : Occurrence} {owner owners : Nat -> Nat × Nat}
  {number units more : Nat}

theorem draft_ok (isDraft : session.draft unit = .ok draft) :
    session.units[unit]? = some draft ∧ draft.isSealed = false := by
  unfold Session.draft at isDraft
  split at isDraft
  · cases isDraft
  · split at isDraft
    · cases isDraft
    · next found isOpen =>
      cases isDraft
      exact ⟨found, Bool.eq_false_iff.mpr isOpen⟩

theorem handles_of_ok (handled : session.handle numbering request = .ok (answer, after, next)) :
    Handles session numbering request answer after next := by
  cases request with
  | openUnit name =>
    cases handled
    exact .opened name
  | addMethod unit | addDelegate unit =>
    simp only [handle, addMethod, addDelegate] at handled
    cases found : session.draft unit with rw [found] at handled
    | error => cases handled
    | ok =>
      cases handled
      exact .changed _ rfl (draft_ok found) _ (.inl ⟨rfl, nofun⟩)
  | sealUnit unit =>
    simp only [handle, sealUnit] at handled
    cases found : session.draft unit with rw [found] at handled
    | error => cases handled
    | ok draft =>
      cases handled
      refine .changed (.sealUnit unit) rfl (draft_ok found) _ ?_
      by_cases isCurrent : session.current = some unit
      · exact .inr ⟨rfl, if_pos isCurrent⟩
      · exact .inl ⟨if_neg isCurrent, fun _ => isCurrent⟩

/-! ## Names -/

/-- A number that ends at a point can be read off a text. -/
theorem number_of_digits {number other : Nat} {rest others : List Char}
    (same : Nat.toDigits 10 number ++ '.' :: rest = Nat.toDigits 10 other ++ '.' :: others) :
    number = other ∧ rest = others := by
  have digits (number : Nat) (rest : List Char) :
      (Nat.toDigits 10 number ++ '.' :: rest).takeWhile Char.isDigit = Nat.toDigits 10 number := by
    rw [List.takeWhile_append_of_pos fun _ => Nat.isDigit_of_mem_toDigits (by decide) (by decide)]
    exact List.append_nil _
  have sameDigits := congrArg (List.takeWhile Char.isDigit) same
  rw [digits, digits] at sameDigits
  rw [sameDigits] at same
  refine ⟨?_, (List.cons.inj (List.append_cancel_left same)).2⟩
  rw [← @Nat.ofDigitChars_ten_toDigits number, sameDigits, Nat.ofDigitChars_ten_toDigits]

theorem unitName_inj {number other unit second : Nat} {text another : String}
    (same : unitName number unit text = unitName other second another) :
    number = other ∧ unit = second := by
  have spelled := congrArg String.toList same
  simp only [unitName, String.toList_append, Nat.toString_eq_ofList_toDigits, String.toList_ofList,
    List.append_assoc] at spelled
  obtain ⟨sameNumber, rest⟩ := number_of_digits (List.append_cancel_left spelled)
  have numbered : 'U' :: (Nat.toDigits 10 unit ++ '.' :: text.toList)
      = 'U' :: (Nat.toDigits 10 second ++ '.' :: another.toList) := rest
  exact ⟨sameNumber, (number_of_digits (List.cons.inj numbered).2).1⟩

/-! ## Units and their requests -/

@[simp] theorem concerns_ok : Occurrence.concerns index unit ⟨place, request, .ok answer⟩
    = (place == index && request.unit? == some unit) := rfl

theorem mem_successes (member : ⟨index, request, .ok answer⟩ ∈ events)
    (about : request.unit? = some unit) : request ∈ successes index unit events :=
  List.mem_map_of_mem (List.mem_filter.mpr ⟨member, by simp [about]⟩)

theorem successes_about (about : request.unit? = some unit) :
    successes index unit (⟨index, request, .ok answer⟩ :: events)
      = request :: successes index unit events := by
  simp [successes, about]

theorem successes_other (other : event.concerns index unit = false) :
    successes index unit (event :: events) = successes index unit events := by
  simp [successes, other]

/-- What is known of a unit: its requests say what it holds, and its number says
where it is. -/
structure Accounted (owner : Nat -> Nat × Nat) (number units index unit : Nat)
    (events : List Occurrence) (draft : UnitDraft) : Prop where
  parent : ∀ parent, draft.parent = some parent -> parent < unit
  name : ∃ text, draft.name = unitName number unit text
  id : draft.id ≤ units
  owned : owner draft.id = (index, unit)
  methods : draft.methods = (successes index unit events).reverse.filterMap Request.method?
  delegate : draft.hasDelegate = true ↔ .addDelegate unit ∈ successes index unit events
  isSealed : draft.isSealed = true ↔ .sealUnit unit ∈ successes index unit events
  frozen : .sealUnit unit ∉ (successes index unit events).tail
  result : ∀ answer, ⟨index, .sealUnit unit, .ok answer⟩ ∈ events ->
    answer = (Request.sealUnit unit).result draft

namespace Accounted

theorem fresh (isFirst : successes index unit events = []) (text : String)
    (owned : owner units = (index, unit))
    {parent : Option Nat} (parents : ∀ outer, parent = some outer -> outer < unit) :
    Accounted owner number units index unit events
      ⟨units, unitName number unit text, parent, [], false, false⟩ := by
  have unsealed (answer) (member : ⟨index, .sealUnit unit, .ok answer⟩ ∈ events) :
      .sealUnit unit ∈ successes index unit events := mem_successes member rfl
  refine ⟨parents, ⟨text, rfl⟩, Nat.le_refl _, owned, ?_, ?_, ?_, ?_, ?_⟩ <;> simp_all

variable (accounted : Accounted owner number units index unit events draft)

include accounted

theorem keep (fewer : units ≤ more) (agree : ∀ id, id ≤ units -> owners id = owner id)
    (other : event.concerns index unit = false) :
    Accounted owners number more index unit (event :: events) draft := by
  have same : successes index unit (event :: events) = _ := successes_other other
  refine ⟨accounted.parent, accounted.name, Nat.le_trans accounted.id fewer,
    (agree _ accounted.id).trans accounted.owned, same ▸ accounted.methods,
    same ▸ accounted.delegate, same ▸ accounted.isSealed, same ▸ accounted.frozen,
    fun answer member => ?_⟩
  rcases List.mem_cons.mp member with rfl | member
  · simp [Request.unit?] at other
  · exact accounted.result answer member

theorem change (isOpen : draft.isSealed = false) (about : request.unit? = some unit) :
    Accounted owner number units index unit
      (⟨index, request, .ok (request.result draft)⟩ :: events) (request.change draft) := by
  have unsealed : .sealUnit unit ∉ successes index unit events := fun isSealed =>
    Bool.false_ne_true (isOpen.symm.trans (accounted.isSealed.mpr isSealed))
  have uncoded (answer) : ⟨index, .sealUnit unit, .ok answer⟩ ∉ events :=
    fun member => unsealed (mem_successes member rfl)
  have same : successes index unit (⟨index, request, .ok (request.result draft)⟩ :: events) = _ :=
    successes_about about
  obtain ⟨parent, name, id, owned, methods, delegate, isSealed, _, _⟩ := accounted
  cases request with
  | openUnit => cases about
  | addMethod | addDelegate | sealUnit =>
    cases about
    constructor <;> simp_all [Request.method?, Request.change, Request.result]

end Accounted

/-- What is known of a session with an index. -/
structure Orderly (owner : Nat -> Nat × Nat) (number units index : Nat)
    (events : List Occurrence) (session : Session) : Prop where
  isNumber : session.number = number
  cursor : ∀ unit, session.current = some unit -> unit < session.units.size
  asked : ∀ unit, session.units.size ≤ unit -> successes index unit events = []
  unit : ∀ unit draft, session.units[unit]? = some draft ->
    Accounted owner number units index unit events draft

namespace Orderly

variable (orderly : Orderly owner number units index events session)

include orderly

theorem keep (fewer : units ≤ more) (agree : ∀ id, id ≤ units -> owners id = owner id)
    (other : ∀ unit, event.concerns index unit = false) :
    Orderly owners number more index (event :: events) session :=
  ⟨orderly.isNumber, orderly.cursor,
    fun unit outside => (successes_other (other unit)).trans (orderly.asked unit outside),
    fun unit draft found => (orderly.unit unit draft found).keep fewer agree (other unit)⟩

end Orderly

theorem Handles.orderly (handles : Handles session numbering request answer after next)
    (orderly : Orderly owner number numbering.units index events session) :
    next.sessions = numbering.sessions ∧ numbering.units ≤ next.units ∧ ∃ owners,
      (∀ id, id ≤ numbering.units -> owners id = owner id) ∧
        Orderly owners number next.units index (⟨index, request, .ok answer⟩ :: events) after := by
  cases handles with
  | opened name =>
    have other (unit : Nat) :
        Occurrence.concerns index unit ⟨index, .openUnit name, .ok none⟩ = false := Bool.and_false _
    -- The new unit owns the next number.
    have agree (id : Nat) (old : id ≤ numbering.units) :
        (if id = numbering.units + 1 then (index, session.units.size) else owner id) = owner id :=
      if_neg (Nat.ne_of_lt (Nat.lt_succ_of_le old))
    refine ⟨rfl, Nat.le_succ _, _, agree, orderly.isNumber, fun unit isCurrent => ?_,
      fun unit outside => ?_, fun unit draft found => ?_⟩
    · obtain rfl : session.units.size = unit := Option.some.inj isCurrent
      exact Array.size_push _ ▸ Nat.lt_succ_self _
    · replace outside : (session.units.push _).size ≤ unit := outside
      rw [Array.size_push] at outside
      exact (successes_other (other unit)).trans (orderly.asked unit (Nat.le_of_succ_le outside))
    · replace found : (session.units.push _)[unit]? = some draft := found
      rw [Array.getElem?_push] at found
      split at found
      · next isLast =>
        subst isLast
        cases found
        rw [← orderly.isNumber]
        exact .fresh ((successes_other (other _)).trans (orderly.asked _ (Nat.le_refl _))) name
          (if_pos rfl) orderly.cursor
      · exact (orderly.unit unit draft found).keep (Nat.le_succ _) agree (other unit)
  | @changed _ changedUnit changedDraft about isOpen current moves =>
    have inside := (Array.getElem?_eq_some_iff.mp isOpen.1).1
    have other (unit : Nat) (differs : changedUnit ≠ unit) : Occurrence.concerns index unit
        ⟨index, request, .ok (request.result changedDraft)⟩ = false := by
      simp [about, differs]
    refine ⟨rfl, Nat.le_refl _, owner, fun _ _ => rfl, orderly.isNumber, fun unit isCurrent => ?_,
      fun unit outside => ?_, fun unit draft found => ?_⟩
    · refine Array.size_setIfInBounds.symm ▸ ?_
      rcases moves with ⟨rfl, _⟩ | ⟨_, rfl⟩
      · exact orderly.cursor unit isCurrent
      · exact Nat.lt_trans ((orderly.unit _ _ isOpen.1).parent unit isCurrent) inside
    · have outside : session.units.size ≤ unit := Array.size_setIfInBounds ▸ outside
      rw [successes_other (other unit (by omega))]
      exact orderly.asked unit outside
    · by_cases same : changedUnit = unit
      · subst same
        obtain rfl : _ = draft :=
          Option.some.inj ((Array.getElem?_setIfInBounds_self_of_lt inside).symm.trans found)
        exact (orderly.unit _ _ isOpen.1).change isOpen.2 about
      · refine (orderly.unit unit draft ?_).keep (Nat.le_refl _) (fun _ _ => rfl) (other unit same)
        exact (Array.getElem?_setIfInBounds_ne same).symm.trans found

/-- What is known of all sessions of a history. -/
structure Accounts (origin : Numbering) (events : List Occurrence) (numbering : Numbering)
    (sessions : Array Session) : Prop where
  count : numbering.sessions = origin.sessions + sessions.size
  inside : ∀ event, event ∈ events -> event.session < sessions.size
  orderly : ∃ owner, ∀ index session, sessions[index]? = some session ->
    Orderly owner (origin.sessions + index + 1) numbering.units index events session

theorem History.accounts (history : History origin events numbering sessions) :
    Accounts origin events numbering sessions := by
  induction history with
  | none => exact ⟨rfl, nofun, fun _ => (0, 0), nofun⟩
  | @started events numbering sessions _ ih =>
    obtain ⟨count, inside, owner, orderly⟩ := ih
    refine ⟨?_, fun event member => ?_, owner, fun index session found => ?_⟩
    · rw [Array.size_push, ← Nat.add_assoc, ← count]
      rfl
    · exact Array.size_push _ ▸ Nat.lt_succ_of_lt (inside event member)
    · rw [Array.getElem?_push] at found
      split at found
      · next isLast =>
        cases found
        refine ⟨by rw [isLast, ← count]; rfl, nofun, fun unit _ => ?_, nofun⟩
        -- Nothing has been asked of the new session.
        refine List.map_eq_nil_iff.mpr (List.filter_eq_nil_iff.mpr fun event member => ?_)
        simp [Occurrence.concerns, isLast, Nat.ne_of_lt (inside event member)]
      · exact orderly index session found
  | @answered _ _ sessions index session _ _ _ after _ isThere handled ih =>
    obtain ⟨count, inside, owner, orderly⟩ := ih
    have isInside := (Array.getElem?_eq_some_iff.mp isThere).1
    obtain ⟨same, fewer, owners, agree, isAfter⟩ :=
      (handles_of_ok handled).orderly (orderly index session isThere)
    refine ⟨?_, ?_, owners, fun place other found => ?_⟩
    · rw [same, count, Array.size_setIfInBounds]
    · rw [Array.size_setIfInBounds]
      exact List.forall_mem_cons.mpr ⟨isInside, inside⟩
    · by_cases here : index = place
      · subst here
        rw [Array.getElem?_setIfInBounds_self_of_lt isInside] at found
        exact Option.some.inj found ▸ isAfter
      · rw [Array.getElem?_setIfInBounds_ne here] at found
        exact (orderly place other found).keep fewer agree fun _ => by simp [here]
  | @refused _ _ sessions index _ _ _ _ isThere _ ih =>
    obtain ⟨count, inside, owner, orderly⟩ := ih
    have isInside := (Array.getElem?_eq_some_iff.mp isThere).1
    exact ⟨count, List.forall_mem_cons.mpr ⟨isInside, inside⟩, owner, fun place other found =>
      (orderly place other found).keep (Nat.le_refl _) (fun _ _ => rfl) fun _ => rfl⟩

theorem History.succeeded (history : History origin events numbering sessions) :
    History origin (events.filter (·.answer.isOk)) numbering sessions := by
  induction history with
  | none => exact .none
  | started _ ih => exact ih.started
  | answered _ isThere handled ih => exact ih.answered isThere handled
  | refused _ _ _ ih => exact ih

/-- A unit is sealed at most once, with the methods that were added before in
their order and with a delegate if one was added.  No request about it succeeds
afterwards, and failed requests leave everything as it was.  The parents of
units are earlier units, and no two units of any sessions share a number or a
name. -/
theorem History.units_frozen (history : History origin events numbering sessions) :
    (∀ later earlier index unit answer,
      events = later ++ ⟨index, .sealUnit unit, .ok answer⟩ :: earlier ->
        successes index unit later = [] ∧ ∃ code draft, answer = some code
          ∧ code.methods = (successes index unit earlier).reverse.filterMap Request.method?
          ∧ (code.hasDelegate = true ↔ .addDelegate unit ∈ successes index unit earlier)
          ∧ Placed sessions index unit draft ∧ code.id = draft.id ∧ code.name = draft.name)
      ∧ History origin (events.filter (·.answer.isOk)) numbering sessions
      ∧ ∀ index unit draft, Placed sessions index unit draft ->
        (∀ parent, draft.parent = some parent -> parent < unit)
        ∧ ∀ place other second, Placed sessions place other second ->
          draft.id = second.id ∨ draft.name = second.name -> index = place ∧ unit = other := by
  obtain ⟨_, inside, owner, orderly⟩ := history.accounts
  refine ⟨?_, history.succeeded, ?_⟩
  · rintro later earlier index unit answer rfl
    have parts : successes index unit (later ++ ⟨index, .sealUnit unit, .ok answer⟩ :: earlier)
        = successes index unit later ++ .sealUnit unit :: successes index unit earlier := by
      rw [successes, List.filter_append, List.map_append]
      exact congrArg _ (successes_about rfl)
    have isThere :=
      Array.getElem?_eq_getElem (inside _ (List.mem_append_right later (.head earlier)))
    have known := orderly index _ isThere
    have isUnit := Nat.lt_of_not_le fun outside =>
      List.append_ne_nil_of_right_ne_nil _ (List.cons_ne_nil _ _)
        (parts.symm.trans (known.asked unit outside))
    have found := Array.getElem?_eq_getElem isUnit
    obtain ⟨_, _, _, _, methods, delegate, _, frozen, result⟩ := known.unit unit _ found
    have isLast : successes index unit later = [] := by
      cases isLater : successes index unit later with
      | nil => rfl
      | cons =>
        rw [parts, isLater] at frozen
        exact absurd (List.mem_append_right _ (.head _)) frozen
    rw [parts, isLast, List.nil_append] at methods delegate
    refine ⟨isLast, _, _, result answer (List.mem_append_right later (.head earlier)), ?_, ?_,
      ⟨_, isThere, found⟩, rfl, rfl⟩
    · rw [methods, List.reverse_cons, List.filterMap_append]
      exact List.append_nil _
    · simpa using delegate
  · rintro index unit draft ⟨session, isThere, found⟩
    have first := (orderly index session isThere).unit unit draft found
    refine ⟨first.parent, ?_⟩
    rintro place other second ⟨session, isThere, found⟩ same
    have next := (orderly place session isThere).unit other second found
    rcases same with same | same
    · exact Prod.mk.inj (first.owned.symm.trans (same ▸ next.owned))
    · obtain ⟨text, isName⟩ := first.name
      obtain ⟨another, isNext⟩ := next.name
      obtain ⟨sameNumber, sameUnit⟩ := unitName_inj (isName.symm.trans (same.trans isNext))
      exact ⟨by omega, sameUnit⟩

/-- A unit that gets a method and a delegate is sealed with them. -/
theorem method_units_frozen : ∃ numbering sessions code, ∃ method : CompiledMethod,
    History ⟨0, 0⟩ [⟨0, .sealUnit 0, .ok (some code)⟩, ⟨0, .addDelegate 0, .ok none⟩,
      ⟨0, .addMethod 0 method, .ok none⟩, ⟨0, .openUnit "main", .ok none⟩] numbering sessions
    ∧ code.methods = [method] ∧ code.hasDelegate = true := by
  have opened := @History.answered ⟨0, 0⟩ _ _ _ 0 _ (.openUnit "main") _ _ _ History.none.started
    rfl rfl
  have added := @History.answered ⟨0, 0⟩ _ _ _ 0 _
    (.addMethod 0 ⟨"Main", 0, false, 0, false, {}, {}, [], []⟩) _ _ _ opened rfl rfl
  have delegated := @History.answered ⟨0, 0⟩ _ _ _ 0 _ (.addDelegate 0) _ _ _ added rfl rfl
  have history := @History.answered ⟨0, 0⟩ _ _ _ 0 _ (.sealUnit 0) _ _ _ delegated rfl rfl
  obtain ⟨_, code, _, isCode, methods, delegate, _⟩ := history.units_frozen.1 [] _ 0 0 _ rfl
  cases isCode
  exact ⟨_, _, _, _, history, methods, delegate.mpr (.head _)⟩

/-! ## The cursor -/

/-- The unit at the cursor is open, or a unit that was opened inside of it was
sealed after it. -/
def Pointed (index : Nat) (events : List Occurrence) (session : Session) : Prop :=
  ∀ unit, session.current = some unit -> ∃ draft, session.units[unit]? = some draft
    ∧ (draft.isSealed = true -> ∃ later earlier inner answer innerDraft,
      events = later ++ ⟨index, .sealUnit inner, .ok answer⟩ :: earlier
        ∧ session.units[inner]? = some innerDraft ∧ innerDraft.parent = some unit
        ∧ .sealUnit unit ∈ successes index unit earlier)

theorem Pointed.keep (pointed : Pointed index events session) (event : Occurrence) :
    Pointed index (event :: events) session := by
  intro unit isCurrent
  obtain ⟨draft, found, known⟩ := pointed unit isCurrent
  refine ⟨draft, found, fun isSealed => ?_⟩
  obtain ⟨later, earlier, inner, answer, innerDraft, isSplit, isInner⟩ := known isSealed
  exact ⟨event :: later, earlier, inner, answer, innerDraft, congrArg _ isSplit, isInner⟩

theorem Handles.pointed (handles : Handles session numbering request answer after next)
    (orderly : Orderly owner number units index events session)
    (pointed : Pointed index events session) :
    Pointed index (⟨index, request, .ok answer⟩ :: events) after := by
  cases handles with
  | opened name =>
    intro unit isCurrent
    obtain rfl : session.units.size = unit := Option.some.inj isCurrent
    exact ⟨_, Array.getElem?_push_size, nofun⟩
  | @changed _ changedUnit changedDraft about isOpen current moves =>
    have inside := (Array.getElem?_eq_some_iff.mp isOpen.1).1
    have changed :
        (session.units.setIfInBounds changedUnit (request.change changedDraft))[changedUnit]?
          = some (request.change changedDraft) := Array.getElem?_setIfInBounds_self_of_lt inside
    have sameParent : (request.change changedDraft).parent = changedDraft.parent := by
      cases request <;> rfl
    -- Other units stay, and no unit gets another parent.
    have stays {unit : Nat} {draft : UnitDraft} (found : session.units[unit]? = some draft) :
        ∃ later, (session.units.setIfInBounds changedUnit (request.change changedDraft))[unit]?
          = some later ∧ later.parent = draft.parent ∧ (changedUnit ≠ unit -> later = draft) := by
      by_cases same : changedUnit = unit
      · subst same
        cases isOpen.1.symm.trans found
        exact ⟨_, changed, sameParent, fun differs => absurd rfl differs⟩
      · exact ⟨draft, (Array.getElem?_setIfInBounds_ne same).trans found, rfl, fun _ => rfl⟩
    intro unit isCurrent
    replace isCurrent : current = some unit := isCurrent
    rcases moves with ⟨rfl, calm⟩ | ⟨rfl, rfl⟩
    · obtain ⟨draft, found, known⟩ := pointed unit isCurrent
      obtain ⟨kept, isKept, _, isSame⟩ := stays found
      refine ⟨kept, isKept, fun isSealed => ?_⟩
      by_cases same : changedUnit = unit
      · subst same
        cases changed.symm.trans isKept
        cases request with
        | openUnit => cases about
        | addMethod | addDelegate => cases isOpen.2.symm.trans isSealed
        | sealUnit =>
          cases about
          exact absurd isCurrent (calm rfl)
      · obtain ⟨later, earlier, inner, answer, innerDraft, isSplit, isInner, isParent, isEarlier⟩ :=
          known (isSame same ▸ isSealed)
        obtain ⟨keptInner, isKeptInner, keptParent, _⟩ := stays isInner
        exact ⟨_ :: later, earlier, inner, answer, keptInner, congrArg _ isSplit, isKeptInner,
          keptParent.trans isParent, isEarlier⟩
    · have below := (orderly.unit _ _ isOpen.1).parent unit isCurrent
      have found := Array.getElem?_eq_getElem (Nat.lt_trans below inside)
      obtain ⟨kept, isKept, _, isSame⟩ := stays found
      refine ⟨kept, isKept, fun isSealed => ?_⟩
      rw [isSame (Nat.ne_of_gt below)] at isSealed
      exact ⟨[], events, changedUnit, _, _, rfl, changed, isCurrent,
        (orderly.unit unit _ found).isSealed.mp isSealed⟩

/-- The cursor of a session is on an open unit, unless units were sealed out of
order: a sealed unit is returned to from a unit inside of it that was sealed later. -/
theorem History.cursor_pointed (history : History origin events numbering sessions) :
    ∀ index session, sessions[index]? = some session -> Pointed index events session := by
  induction history with
  | none => nofun
  | started _ ih =>
    intro index session found
    rw [Array.getElem?_push] at found
    split at found
    · cases found
      nofun
    · exact ih index session found
  | @answered _ _ _ index session _ _ _ _ earlier isThere handled ih =>
    intro place other found
    obtain ⟨_, _, _, orderly⟩ := earlier.accounts
    have inside := (Array.getElem?_eq_some_iff.mp isThere).1
    by_cases here : index = place
    · subst here
      rw [Array.getElem?_setIfInBounds_self_of_lt inside] at found
      cases found
      exact (handles_of_ok handled).pointed (orderly index session isThere)
        (ih index session isThere)
    · rw [Array.getElem?_setIfInBounds_ne here] at found
      exact (ih place other found).keep _
  | refused _ _ _ ih => exact fun index session found => (ih index session found).keep _

/-- The outer of two units is sealed first, and the cursor returns to it. -/
theorem crossed_cursor_pointed : ∃ events numbering sessions session draft,
    History ⟨0, 0⟩ events numbering sessions ∧ sessions[0]? = some session
      ∧ session.current = some 0 ∧ session.units[0]? = some draft ∧ draft.isSealed = true
      ∧ ∃ later earlier inner answer,
        events = later ++ ⟨0, .sealUnit inner, .ok answer⟩ :: earlier
          ∧ .sealUnit 0 ∈ successes 0 0 earlier := by
  have outer := @History.answered ⟨0, 0⟩ _ _ _ 0 _ (.openUnit "outer") _ _ _ History.none.started
    rfl rfl
  have inner := @History.answered ⟨0, 0⟩ _ _ _ 0 _ (.openUnit "inner") _ _ _ outer rfl rfl
  have first := @History.answered ⟨0, 0⟩ _ _ _ 0 _ (.sealUnit 0) _ _ _ inner rfl rfl
  have history := @History.answered ⟨0, 0⟩ _ _ _ 0 _ (.sealUnit 1) _ _ _ first rfl rfl
  obtain ⟨draft, found, crossed⟩ := history.cursor_pointed 0 _ rfl 0 rfl
  have isSealed : draft.isSealed = true := by
    cases found
    rfl
  obtain ⟨later, earlier, inner, answer, _, isSplit, _, _, isEarlier⟩ := crossed isSealed
  exact ⟨_, _, _, _, draft, history, rfl, rfl, found, isSealed, later, earlier, inner, answer,
    isSplit, isEarlier⟩

end Session
end OpMachine
