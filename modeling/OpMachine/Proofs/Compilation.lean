import OpMachine.Proofs.Emission

namespace OpMachine

/-!
# Computations on a body

A body under compilation is sound when its tables are: constants are found
under their keys, locals have slots of their own below the number of slots, and
the called methods and anonymous functions come from the surroundings.  Every
computation of the compiler keeps a body sound and extends it.

`Compile.Quiet` holds of a computation that writes no code: a question to the
slots or to the catalog.  `Compile.Emits` holds of one that appends structured
code.  Both are closed under sequencing, and the three jump patterns have a
rule each.
-/

/-! ## Bodies -/

open SlotTable

namespace Body

def values (body : Body) : List UInt8 := body.emitter.chunk.values

/-- A later state of a body: everything that was found before is found again
under the same number. -/
structure Extends (before after : Body) : Prop where
  pool : before.emitter.pool.Extends after.emitter.pool
  owner : after.slots.owner = before.slots.owner
  hasReceiver : after.slots.hasReceiver = before.slots.hasReceiver
  parameterCount : after.slots.parameterCount = before.slots.parameterCount
  locals : ∀ (id : SymbolId) (slot : UInt16), before.slots.locals[id]? = some slot ->
    after.slots.locals[id]? = some slot
  localCount : before.slots.localCount ≤ after.slots.localCount
  /-- Locals that were declared since have slots of their own. -/
  declared : ∀ (id : SymbolId) (slot : UInt16), after.slots.locals[id]? = some slot ->
    before.slots.locals[id]? = some slot ∨ before.slots.localCount ≤ slot.toNat
  lambdas : ∀ (index : Nat) (lambda : CompiledLambda),
    before.lambdas[index]? = some lambda -> after.lambdas[index]? = some lambda
  callees : ∀ (index : Nat) (callee : CompiledMethod),
    before.callees[index]? = some callee -> after.callees[index]? = some callee
  catalog : before.workspace.catalog.Grows after.workspace.catalog

theorem Extends.refl (body : Body) : body.Extends body :=
  ⟨.refl _, rfl, rfl, rfl, fun _ _ found => found, Nat.le_refl _, fun _ _ => .inl,
    fun _ _ found => found, fun _ _ found => found, .refl _⟩

theorem Extends.trans {first second third : Body} (earlier : first.Extends second)
    (later : second.Extends third) : first.Extends third where
  pool := earlier.pool.trans later.pool
  owner := later.owner.trans earlier.owner
  hasReceiver := later.hasReceiver.trans earlier.hasReceiver
  parameterCount := later.parameterCount.trans earlier.parameterCount
  locals := fun id slot found => later.locals id slot (earlier.locals id slot found)
  localCount := Nat.le_trans earlier.localCount later.localCount
  declared := fun id slot found => (later.declared id slot found).elim (earlier.declared id slot)
    fun fresh => .inr (Nat.le_trans earlier.localCount fresh)
  lambdas := fun index lambda found => later.lambdas index lambda
    (earlier.lambdas index lambda found)
  callees := fun index callee found => later.callees index callee
    (earlier.callees index callee found)
  catalog := earlier.catalog.trans later.catalog

/-- The invariant of a body whose compilation began with a catalog.  A called
method was compiled in between, and the catalog has only grown since. -/
structure Sound (surroundings : Surroundings) (origin : Catalog) (body : Body) : Prop where
  pool : body.emitter.pool.Sound
  slots : ∀ (id : SymbolId) (slot : UInt16), body.slots.locals[id]? = some slot ->
    slot.toNat < body.slots.localCount
  distinct : ∀ (first second : SymbolId) (slot : UInt16),
    body.slots.locals[first]? = some slot -> body.slots.locals[second]? = some slot ->
      first = second
  bounded : body.slots.localCount ≤ maximumLocals
  callees : ∀ callee, callee ∈ body.callees -> ∃ symbol before after,
    surroundings.callee symbol before = .ok callee after
      ∧ origin.Grows before.catalog ∧ after.catalog.Grows body.workspace.catalog
  lambdas : ∀ lambda, lambda ∈ body.lambdas -> ∃ id,
    surroundings.session.lambda? id = some lambda
  fewLambdas : body.lambdas.length ≤ 256
  origin : origin.Grows body.workspace.catalog

end Body

/-! ## Computations in the workspace -/

namespace Make

variable {α β : Type}

/-- A computation in the workspace that lets the catalog grow when it
succeeds. -/
def Grows (action : Make α) : Prop :=
  ∀ before value after, action before = .ok value after ->
    before.catalog.Grows after.catalog

theorem grows_pure (value : α) : Grows (pure value) := by
  intro before result after runs
  cases runs
  exact .refl _

theorem grows_throw (error : CompilationError) : Grows (throw error : Make α) := by
  intro before result after runs
  cases runs

theorem Grows.bind (first : Grows action) (second : ∀ value, Grows (next value)) :
    Grows (action >>= next) := by
  intro before result after runs
  obtain ⟨value, middle, began, ended⟩ := ok_of_bind runs
  exact (first before value middle began).trans (second value middle result after ended)

theorem grows_lookup (extending : action.Extends) : Grows (lookup action) := by
  intro before result after runs
  cases runs
  exact extending before.catalog

theorem asks_grows : Asks @Grows where
  pure := grows_pure
  bind := Grows.bind
  throw := fun _ => grows_throw _
  lookup := fun closes => grows_lookup closes.extends

end Make

/-- Surroundings in which compiling a called method lets the catalog grow. -/
def Surroundings.Conservative (surroundings : Surroundings) : Prop :=
  ∀ symbol, (surroundings.callee symbol).Grows

/-! ## Computations that write no code -/

namespace Compile

variable {α β : Type} {outer : Surroundings} {origin : Catalog} {action : Make α}
  {before after : Body} {value : α} {symbol : LocalSymbol} {slot : UInt16} {index : UInt8}
  {hasReceiver : Bool} {method : MethodSymbol} {count : Nat} {target : CallTarget}

theorem make_ok (runs : make action before = .ok value after) :
    ∃ workspace, action before.workspace = .ok value workspace
      ∧ after = { before with workspace } := by
  obtain ⟨emitter, slots, lambdas, callees, implicitReceivers, workspace⟩ := before
  cases made : action workspace with simp only [make, made] at runs
  | error => cases runs
  | ok _ later =>
    cases runs
    exact ⟨later, rfl, rfl⟩

theorem emit_ok {action : Emit α} (runs : emit action before = .ok value after) :
    ∃ emitter, action before.emitter = .ok value emitter
      ∧ after = { before with emitter } := by
  obtain ⟨emitter, slots, lambdas, callees, implicitReceivers, workspace⟩ := before
  cases made : action emitter with simp only [emit, made] at runs
  | error => cases runs
  | ok _ later =>
    cases runs
    exact ⟨later, rfl, rfl⟩

theorem withSlots_ok {action : SlotTable -> Except CompilationError (α × SlotTable)}
    (runs : withSlots action before = .ok value after) :
    ∃ slots, action before.slots = .ok (value, slots) ∧ after = { before with slots } := by
  unfold withSlots at runs
  split at runs
  · rename_i result slots handed
    cases runs
    exact ⟨slots, handed, rfl⟩
  · cases runs

/-- A computation that writes no code, keeps a body sound and extends it. -/
def Quiet (surroundings : Surroundings) (origin : Catalog) (action : Compile α) : Prop :=
  ∀ before value after, Body.Sound surroundings origin before ->
    action before = .ok value after ->
      after.Sound surroundings origin ∧ before.Extends after
        ∧ after.implicitReceivers = before.implicitReceivers ∧ after.values = before.values

theorem quiet_pure (value : α) : Quiet outer origin (pure value) := by
  intro before result after sound runs
  cases runs
  exact ⟨sound, .refl _, rfl, rfl⟩

theorem quiet_get : Quiet outer origin (get : Compile Body) := by
  intro before result after sound runs
  cases runs
  exact ⟨sound, .refl _, rfl, rfl⟩

theorem Quiet.bind {action : Compile α} {next : α -> Compile β} (first : Quiet outer origin action)
    (second : ∀ value, Quiet outer origin (next value)) :
    Quiet outer origin (action >>= next) := by
  intro before result after sound runs
  obtain ⟨value, middle, began, ended⟩ := ok_of_bind runs
  obtain ⟨middleSound, extended, sameDepth, sameValues⟩ :=
    first before value middle sound began
  obtain ⟨afterSound, extendedFurther, sameDepthFurther, sameValuesFurther⟩ :=
    second value middle result after middleSound ended
  exact ⟨afterSound, extended.trans extendedFurther, sameDepthFurther.trans sameDepth,
    sameValuesFurther.trans sameValues⟩

theorem quiet_setLine (line : UInt32) : Quiet outer origin (emit (.setLine line)) := by
  intro before result after sound runs
  obtain ⟨emitter, moved, rfl⟩ := emit_ok runs
  have same : emitter.pool = before.emitter.pool ∧ emitter.chunk = before.emitter.chunk := by
    cases moved
    unfold Emitter.atLine
    split
    · exact ⟨rfl, rfl⟩
    · exact ⟨rfl, rfl⟩
  refine ⟨{ sound with pool := ?_ }, { Body.Extends.refl before with pool := ?_ }, rfl, ?_⟩
  · rw [same.1]
    exact sound.pool
  · rw [same.1]
    exact .refl _
  · exact congrArg Chunk.values same.2

theorem quiet_make (grows : action.Grows) : Quiet outer origin (make action) := by
  intro before result after sound runs
  obtain ⟨workspace, made, rfl⟩ := make_ok runs
  have grown := grows before.workspace result workspace made
  refine ⟨{ sound with callees := ?_, origin := sound.origin.trans grown },
    { Body.Extends.refl before with catalog := grown }, rfl, rfl⟩
  intro callee member
  obtain ⟨symbol, earlier, later, compiled, began, ended⟩ := sound.callees callee member
  exact ⟨symbol, earlier, later, compiled, began, ended.trans grown⟩

theorem quiet_asks : Asks (Quiet outer origin) where
  pure := quiet_pure
  bind := Quiet.bind
  throw := fun _ _ _ _ _ runs => by cases runs
  body := quiet_get
  lookup := fun closes => quiet_make (Make.grows_lookup closes.extends)

/-! ### Slots -/

theorem parameterSlot_ok {symbol : ParameterSymbol} {slot : UInt8}
    (runs : parameterSlot symbol before = .ok slot after) :
    before.slots.parameterSlot symbol = .ok slot ∧ after = before := by
  obtain ⟨slots, handed, rfl⟩ := withSlots_ok runs
  cases found : before.slots.parameterSlot symbol with
  | error => rw [found] at handed; cases handed
  | ok => rw [found] at handed; cases handed; exact ⟨rfl, rfl⟩

theorem localSlot_ok (runs : localSlot symbol before = .ok slot after) :
    before.slots.locals[symbol.id]? = some slot ∧ after = before := by
  obtain ⟨slots, handed, rfl⟩ := withSlots_ok runs
  cases found : before.slots.locals[symbol.id]? with
  | none => simp only [SlotTable.localSlot, found] at handed; cases handed
  | some => simp only [SlotTable.localSlot, found] at handed; cases handed; exact ⟨rfl, rfl⟩

theorem freshSlot_ok (runs : freshSlot before = .ok slot after) :
    before.slots.localCount < maximumLocals ∧ slot.toNat = before.slots.localCount
      ∧ after = { before with
          slots := { before.slots with localCount := before.slots.localCount + 1 } } := by
  obtain ⟨_, handed, rfl⟩ := withSlots_ok runs
  unfold fresh at handed
  split at handed
  · rename_i small
    cases handed
    exact ⟨small, UInt16.toNat_ofNat_of_lt (Nat.lt_succ_of_lt small), rfl⟩
  · cases handed

/-- A declared local is found under the slot it was given. -/
theorem declareLocal_ok (runs : declareLocal symbol before = .ok slot after) :
    before.slots.locals[symbol.id]? = some slot ∧ after = before
      ∨ before.slots.locals[symbol.id]? = none ∧ before.slots.localCount < maximumLocals
        ∧ slot.toNat = before.slots.localCount
        ∧ after = { before with
            slots := { before.slots with
              localCount := before.slots.localCount + 1
              locals := before.slots.locals.insert symbol.id slot } } := by
  obtain ⟨slots, handed, rfl⟩ := withSlots_ok runs
  unfold declare at handed
  cases found : before.slots.locals[symbol.id]? with rw [found] at handed
  | some =>
    cases handed
    exact .inl ⟨rfl, rfl⟩
  | none =>
    unfold fresh at handed
    by_cases small : before.slots.localCount < maximumLocals
    · rw [if_pos small] at handed
      cases handed
      exact .inr ⟨rfl, small, UInt16.toNat_ofNat_of_lt (Nat.lt_succ_of_lt small), rfl⟩
    · rw [if_neg small] at handed
      cases handed

theorem quiet_parameterSlot (symbol : ParameterSymbol) :
    Quiet outer origin (parameterSlot symbol) := by
  intro before slot after sound runs
  obtain ⟨_, rfl⟩ := parameterSlot_ok runs
  exact ⟨sound, .refl _, rfl, rfl⟩

theorem quiet_localSlot (symbol : LocalSymbol) : Quiet outer origin (localSlot symbol) := by
  intro before slot after sound runs
  obtain ⟨_, rfl⟩ := localSlot_ok runs
  exact ⟨sound, .refl _, rfl, rfl⟩

theorem quiet_freshSlot : Quiet outer origin freshSlot := by
  intro before slot after sound runs
  obtain ⟨small, _, rfl⟩ := freshSlot_ok runs
  refine ⟨{ sound with slots := ?_, bounded := small },
    { Body.Extends.refl before with localCount := Nat.le_succ _ }, rfl, rfl⟩
  exact fun id slot found => Nat.lt_succ_of_lt (sound.slots id slot found)

theorem quiet_declareLocal (symbol : LocalSymbol) : Quiet outer origin (declareLocal symbol) := by
  intro before slot after sound runs
  rcases declareLocal_ok runs with ⟨_, rfl⟩ | ⟨absent, small, isNew, rfl⟩
  · exact ⟨sound, .refl _, rfl, rfl⟩
  · -- The new slot lies above all old ones, so no other local has it.
    have above (id : SymbolId) (found : before.slots.locals[id]? = some slot) : False := by
      have below := sound.slots id slot found
      rw [isNew] at below
      exact Nat.lt_irrefl _ below
    refine ⟨{ sound with slots := ?_, distinct := ?_, bounded := small },
      { Body.Extends.refl before with
        locals := ?_, localCount := Nat.le_succ _, declared := ?_ }, rfl, rfl⟩
    · intro id found isFound
      rcases inserted_or_found isFound with ⟨_, rfl⟩ | earlier
      · exact isNew ▸ Nat.lt_succ_self _
      · exact Nat.lt_succ_of_lt (sound.slots id found earlier)
    · intro first second found isFirst isSecond
      rcases inserted_or_found isFirst with ⟨sameFirst, rfl⟩ | isFirst
      · rcases inserted_or_found isSecond with ⟨sameSecond, _⟩ | isSecond
        · exact sameFirst.symm.trans sameSecond
        · exact (above second isSecond).elim
      · rcases inserted_or_found isSecond with ⟨_, rfl⟩ | isSecond
        · exact (above first isFirst).elim
        · exact sound.distinct first second found isFirst isSecond
    · intro id found isFound
      have different : symbol.id ≠ id := by
        intro same
        rw [← same, absent] at isFound
        cases isFound
      rw [Std.HashMap.getElem?_insert, beq_false_of_ne different]
      exact isFound
    · intro id found isFound
      rcases inserted_or_found isFound with ⟨_, rfl⟩ | earlier
      · exact .inr (Nat.le_of_eq isNew.symm)
      · exact .inl earlier

/-! ### Tables of functions and methods -/

/-- A function is found in the table under its symbol, or it is put there. -/
theorem lambdaIndex_cases {symbol : SymbolId}
    (runs : lambdaIndex session symbol before = .ok index after) :
    (∃ position, before.lambdas.findIdx? (·.symbol = symbol) = some position
        ∧ index = position.toUInt8 ∧ after = before)
      ∨ before.lambdas.length < 256 ∧ ∃ lambda, session.lambda? symbol = some lambda
        ∧ index = before.lambdas.length.toUInt8
        ∧ after = { before with lambdas := before.lambdas ++ [lambda] } := by
  obtain ⟨_, _, got, rest⟩ := ok_of_bind runs
  cases got
  cases known : before.lambdas.findIdx? (·.symbol = symbol) with rw [known] at rest
  | some position =>
    cases rest
    exact .inl ⟨position, rfl, rfl, rfl⟩
  | none =>
    cases found : session.lambda? symbol with simp only [found] at rest
    | none => cases rest
    | some lambda =>
      by_cases small : before.lambdas.length < 256
      · rw [if_pos small] at rest
        cases rest
        exact .inr ⟨small, lambda, rfl, rfl, rfl⟩
      · rw [if_neg small] at rest
        cases rest

theorem lambdaIndex_ok {symbol : SymbolId} (sound : before.Sound outer origin)
    (runs : lambdaIndex outer.session symbol before = .ok index after) :
    index.toNat < after.lambdas.length
      ∧ (after = before ∨ before.lambdas.length < 256 ∧ ∃ lambda,
        outer.session.lambda? symbol = some lambda
          ∧ after = { before with lambdas := before.lambdas ++ [lambda] }) := by
  rcases lambdaIndex_cases runs with ⟨position, known, rfl, rfl⟩ | ⟨small, lambda, found, rfl, rfl⟩
  · have inside := (List.findIdx?_eq_some_iff_getElem.mp known).1
    refine ⟨?_, .inl rfl⟩
    have few : position < 256 := Nat.lt_of_lt_of_le inside sound.fewLambdas
    rwa [show position.toUInt8.toNat = position from UInt8.toNat_ofNat_of_lt few]
  · refine ⟨?_, .inr ⟨small, lambda, found, rfl⟩⟩
    rw [show before.lambdas.length.toUInt8.toNat = before.lambdas.length from
      UInt8.toNat_ofNat_of_lt small, List.length_append]
    exact .refl

theorem quiet_lambdaIndex (symbol : SymbolId) :
    Quiet outer origin (lambdaIndex outer.session symbol) := by
  intro before index after sound runs
  obtain ⟨_, rfl | ⟨small, _, found, rfl⟩⟩ := lambdaIndex_ok sound runs
  · exact ⟨sound, .refl _, rfl, rfl⟩
  · refine ⟨{ sound with lambdas := ?_, fewLambdas := ?_ },
      { Body.Extends.refl before with lambdas := ?_ }, rfl, rfl⟩
    · intro other member
      rcases List.mem_append.mp member with earlier | last
      · exact sound.lambdas other earlier
      · exact ⟨symbol, List.mem_singleton.mp last ▸ found⟩
    · rw [List.length_append]
      exact small
    · exact fun position other isThere => (List.getElem?_append_left
        (List.getElem?_eq_some_iff.mp isThere).1).trans isThere

theorem addCallee_ok (runs : addCallee callee before = .ok index after) :
    after = { before with callees := before.callees ++ [callee] }
      ∧ after.callees[index.toNat]? = some callee := by
  obtain ⟨_, _, got, rest⟩ := ok_of_bind runs
  cases got
  by_cases small : before.callees.length < 256
  · rw [if_pos small] at rest
    cases rest
    refine ⟨rfl, ?_⟩
    rw [show before.callees.length.toUInt8.toNat = before.callees.length from
      UInt8.toNat_ofNat_of_lt small]
    exact List.getElem?_concat_length
  · rw [if_neg small] at rest
    cases rest

/-! ### Calls -/

/-- A call of a declared method is a call of the method at hand, or of a method
compiled for this call site. -/
theorem declaredMethod_ok
    (runs : declaredMethod outer hasReceiver method count before = .ok target after) :
    hasReceiver = false ∧ method.isStatic = true ∧ count < 256
      ∧ (target = .self ∧ method.id = before.slots.owner ∧ after = before
        ∨ ∃ callee index workspace, method.id ≠ before.slots.owner
            ∧ outer.callee method before.workspace = .ok callee workspace
            ∧ target = .declared index
            ∧ after = { before with workspace, callees := before.callees ++ [callee] }
            ∧ after.callees[index.toNat]? = some callee) := by
  unfold declaredMethod at runs
  by_cases isInstance : (hasReceiver || !method.isStatic) = true
  · rw [if_pos isInstance] at runs
    obtain ⟨_, _, impossible, _⟩ := ok_of_bind runs
    cases impossible
  · rw [if_neg isInstance] at runs
    have plain := Bool.or_eq_false_iff.mp (Bool.eq_false_iff.mpr isInstance)
    obtain ⟨_, _, counted, runs⟩ := ok_of_bind runs
    unfold argumentCount at counted
    by_cases small : count < 256
    · rw [if_pos small] at counted
      cases counted
      obtain ⟨_, _, got, runs⟩ := ok_of_bind runs
      cases got
      refine ⟨plain.1, (Bool.not_eq_false' ..).mp plain.2, small, ?_⟩
      by_cases own : method.id = before.slots.owner
      · rw [if_pos own] at runs
        cases runs
        exact .inl ⟨rfl, own, rfl⟩
      · rw [if_neg own] at runs
        obtain ⟨callee, _, made, runs⟩ := ok_of_bind runs
        obtain ⟨index, fifth, added, runs⟩ := ok_of_bind runs
        cases runs
        obtain ⟨workspace, compiled, rfl⟩ := make_ok made
        obtain ⟨rfl, found⟩ := addCallee_ok added
        exact .inr ⟨callee, index, workspace, own, compiled, rfl, rfl, found⟩
    · rw [if_neg small] at counted
      cases counted

theorem quiet_declaredMethod (conservative : outer.Conservative) (hasReceiver : Bool)
    (method : MethodSymbol) (count : Nat) :
    Quiet outer origin (declaredMethod outer hasReceiver method count) := by
  intro before target after sound runs
  obtain ⟨_, _, _, ⟨_, _, rfl⟩ | ⟨callee, _, workspace, _, compiled, _, rfl, _⟩⟩ :=
    declaredMethod_ok runs
  · exact ⟨sound, .refl _, rfl, rfl⟩
  · have grown := conservative method before.workspace callee workspace compiled
    refine ⟨{ sound with callees := ?_, origin := sound.origin.trans grown },
      { Body.Extends.refl before with callees := ?_, catalog := grown }, rfl, rfl⟩
    · intro other member
      rcases List.mem_append.mp member with earlier | last
      · obtain ⟨symbol, began, ended, made, started, finished⟩ := sound.callees other earlier
        exact ⟨symbol, began, ended, made, started, finished.trans grown⟩
      · rw [List.mem_singleton.mp last]
        exact ⟨method, before.workspace, workspace, compiled, sound.origin, .refl _⟩
    · exact fun position other isThere => (List.getElem?_append_left
        (List.getElem?_eq_some_iff.mp isThere).1).trans isThere

/-- What a call names is decided by whether the catalog resolves the type. -/
theorem callTarget_ok (runs : callTarget outer hasReceiver method count before = .ok target after) :
    ∃ middle : Body, middle = { before with workspace := { before.workspace with
        catalog := (before.workspace.catalog.lookup (Catalog.resolve method.containingType)).2 } }
      ∧ ((∃ owner entry,
          (before.workspace.catalog.lookup (Catalog.resolve method.containingType)).1 = some owner
            ∧ hostMethod owner method middle = .ok entry after ∧ target = .host entry)
        ∨ (before.workspace.catalog.lookup (Catalog.resolve method.containingType)).1 = none
          ∧ declaredMethod outer hasReceiver method count middle = .ok target after) := by
  obtain ⟨answer, _, resolved, runs⟩ := ok_of_bind runs
  obtain ⟨workspace, lookedUp, rfl⟩ := make_ok resolved
  refine ⟨_, rfl, ?_⟩
  have shape : EStateM.Result.ok
      (before.workspace.catalog.lookup (Catalog.resolve method.containingType)).1
      ({ before.workspace with
        catalog := (before.workspace.catalog.lookup
          (Catalog.resolve method.containingType)).2 } : Workspace)
      = .ok answer workspace := lookedUp
  injection shape with sameAnswer sameWorkspace
  subst sameWorkspace
  rw [sameAnswer]
  cases answer with
  | none => exact .inr ⟨rfl, runs⟩
  | some owner =>
    obtain ⟨entry, _, selected, runs⟩ := ok_of_bind runs
    cases runs
    exact .inl ⟨owner, entry, rfl, selected, rfl⟩

theorem quiet_callTarget (conservative : outer.Conservative) (hasReceiver : Bool)
    (method : MethodSymbol) (count : Nat) :
    Quiet outer origin (callTarget outer hasReceiver method count) := by
  refine .bind (quiet_make (Make.grows_lookup (Catalog.regular_resolve _).closes.extends)) fun answer => ?_
  split
  · exact .bind (quiet_asks.hostMethod _ _) fun _ => quiet_pure _
  · exact quiet_declaredMethod conservative hasReceiver method count

end Compile
end OpMachine
