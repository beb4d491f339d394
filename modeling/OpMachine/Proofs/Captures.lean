import OpMachine.Proofs.EvaluatedParts

namespace OpMachine

/-!
# Captures

A body may use its own parameters and the locals that it has declared before,
and nothing else: a parameter of another body has no slot, and neither has a
local that is declared elsewhere or later.  Expressions declare no locals, so
the order in which locals become known is the order of the statements.
-/

namespace Operation

/-- One of some operations declares a local. -/
def Declares (operations : List Operation) (id : SymbolId) : Prop :=
  ∃ info, ∃ symbol : LocalSymbol, ∃ initializer,
    .declaration info symbol initializer ∈ operations ∧ symbol.id = id

variable {id : SymbolId} {front : List Operation}

theorem Declares.append_left (declares : Declares front id) (back : List Operation) :
    Declares (front ++ back) id := by
  obtain ⟨info, symbol, initializer, member, isId⟩ := declares
  exact ⟨info, symbol, initializer, List.mem_append_left back member, isId⟩

variable {back : List Operation}

theorem Declares.append_right (front : List Operation) (declares : Declares back id) :
    Declares (front ++ back) id := by
  obtain ⟨info, symbol, initializer, member, isId⟩ := declares
  exact ⟨info, symbol, initializer, List.mem_append_right front member, isId⟩

end Operation

/-! ## Locals become known in order -/

/-- Some operations explain the locals of a body that are new, and each local
among them is known before or declared earlier among them. -/
structure Body.Scopes (before after : Body) (operations : List Operation) : Prop where
  declared : ∀ id, (after.slots.locals[id]?).isSome = true ->
    (before.slots.locals[id]?).isSome = true ∨ Operation.Declares operations id
  used : ∀ front info symbol back,
    operations = front ++ .localVariable info symbol :: back ->
      (before.slots.locals[symbol.id]?).isSome = true ∨ Operation.Declares front symbol.id

theorem Body.Scopes.trans {first second third : Body} (earlier : first.Scopes second front)
    (later : second.Scopes third back) :
    first.Scopes third (front ++ back) where
  declared := by
    intro id isKnown
    rcases later.declared id isKnown with inSecond | inBack
    · rcases earlier.declared id inSecond with inFirst | inFront
      · exact .inl inFirst
      · exact .inr (inFront.append_left back)
    · exact .inr (inBack.append_right front)
  used := by
    intro before info symbol rest split
    rcases List.append_eq_append_iff.mp split with ⟨middle, isBefore, isBack⟩ | ⟨middle, isFront, isRest⟩
    · -- The local stands in the second list.
      rcases later.used middle info symbol rest isBack with inSecond | inMiddle
      · rcases earlier.declared symbol.id inSecond with inFirst | inFront
        · exact .inl inFirst
        · exact .inr (isBefore ▸ inFront.append_left middle)
      · exact .inr (isBefore ▸ inMiddle.append_right front)
    · cases middle with
      | nil =>
        rcases later.used [] info symbol rest isRest.symm with inSecond | inNothing
        · rcases earlier.declared symbol.id inSecond with inFirst | inFront
          · exact .inl inFirst
          · rw [List.append_nil] at isFront
            exact .inr (isFront ▸ inFront)
        · obtain ⟨_, _, _, impossible, _⟩ := inNothing
          exact absurd impossible List.not_mem_nil
      | cons _ tail =>
        injection isRest with isHead isTail
        exact earlier.used before info symbol tail (isHead ▸ isFront)

namespace Emit

/-- An emission that adds no constant. -/
def KeepsPool {α : Type} (action : Emit α) : Prop :=
  ∀ before value after, action before = .ok value after -> after.pool = before.pool

theorem KeepsPool.of_eq {answer : Emitter -> α} {change : Emitter -> Emitter}
    (runs : ∀ emitter, action emitter = .ok (answer emitter) (change emitter))
    (keeps : ∀ emitter, (change emitter).pool = emitter.pool) : KeepsPool action := by
  intro before value after succeeds
  cases (runs before).symm.trans succeeds
  exact keeps before

theorem KeepsPool.setLine (line : UInt32) : KeepsPool (setLine line) := by
  refine .of_eq (fun _ => rfl) fun emitter => ?_
  unfold Emitter.atLine
  split
  · rfl
  · rfl

theorem KeepsPool.opcode (code : Opcode) : KeepsPool (opcode code) :=
  .of_eq (fun _ => rfl) fun _ => rfl

theorem KeepsPool.offset : KeepsPool offset := .of_eq (fun _ => rfl) fun _ => rfl

theorem KeepsPool.setLocal (slot : UInt16) : KeepsPool (setLocal slot) :=
  .of_eq (fun _ => rfl) fun _ => rfl

theorem KeepsPool.jump (code : Opcode) : KeepsPool (jump code) := .of_eq (jump_eq code) fun _ => rfl

theorem KeepsPool.patch (label : Label) : KeepsPool (patch label) := by
  intro before value after runs
  rw [patch_eq] at runs
  split at runs
  · cases runs
    rfl
  · cases runs

theorem KeepsPool.loop (target : Nat) : KeepsPool (loop target) := by
  intro before value after runs
  rw [loop_eq] at runs
  split at runs
  · cases runs
    rfl
  · cases runs

end Emit

open Operation

namespace Compile

/-- A computation that declares no locals. -/
def KeepsLocals {α : Type} (action : Compile α) : Prop :=
  ∀ before value after, action before = .ok value after ->
    after.slots.locals = before.slots.locals

variable {α : Type}

theorem keepsLocals_make (action : Make α) : KeepsLocals (make action) := by
  intro before value after runs
  obtain ⟨_, _, rfl⟩ := make_ok runs
  rfl

theorem KeepsLocals.bind {β : Type} {first : Compile α} {next : α -> Compile β}
    (ofFirst : KeepsLocals first) (ofNext : ∀ value, KeepsLocals (next value)) :
    KeepsLocals (first >>= next) := by
  intro before value after runs
  obtain ⟨answer, middle, firstly, secondly⟩ := ok_of_bind runs
  exact (ofNext answer middle value after secondly).trans (ofFirst before answer middle firstly)

theorem KeepsLocals.of_stepped {action : Compile α} (stepped : Stepped outer Known False action) :
    KeepsLocals action := by
  induction stepped with
  | declareLocal declares => exact declares.elim
  | bind _ _ ofFirst ofNext => exact .bind ofFirst ofNext
  | pure | body | implicitReceivers =>
    intro before value after runs
    cases runs
    rfl
  | throw =>
    intro before value after runs
    cases runs
  | emit =>
    intro before value after runs
    obtain ⟨_, _, rfl⟩ := emit_ok runs
    rfl
  | lookup => exact keepsLocals_make _
  | parameterSlot =>
    intro before value after runs
    rw [(parameterSlot_ok runs).2]
  | localSlot =>
    intro before value after runs
    rw [(localSlot_ok runs).2]
  | freshSlot =>
    intro before value after runs
    rw [(freshSlot_ok runs).2.2]
  | callee =>
    refine .bind (keepsLocals_make _) fun callee => ?_
    intro before value after runs
    rw [(addCallee_ok runs).1]
  | lambdaIndex =>
    intro before value after runs
    rcases lambdaIndex_cases runs with ⟨_, _, _, rfl⟩ | ⟨_, _, _, _, rfl⟩
    · rfl
    · rfl

/-- The place of an expression that stands in no object initializer. -/
def expressionSite (outer : Surroundings) (origin : Catalog) : Site :=
  ⟨outer, origin, 0, 0, fun _ => True, False⟩

/-- A computation that compiles some operations in a sound body, in order. -/
def InScope {α : Type} (surroundings : Surroundings) (origin catalog : Catalog)
    (action : Compile α) (operations : List Operation) : Prop :=
  ∀ before value after, before.Sound surroundings origin -> before.implicitReceivers = 0 ->
    action before = .ok value after -> after.Sound surroundings origin ∧ after.implicitReceivers = 0
      ∧ before.workspace.catalog.Grows after.workspace.catalog
      ∧ (after.workspace.catalog.Grows catalog -> before.Scopes after operations)

section

variable {α β : Type} {outer : Surroundings} {origin catalog : Catalog} {first : Compile α}
  {next : α -> Compile β} {operations : List Operation} {action : Emit α}

theorem InScope.bind (ofFirst : InScope outer origin catalog first front)
    (ofNext : ∀ value, InScope outer origin catalog (next value) back) :
    InScope outer origin catalog (first >>= next) (front ++ back) := by
  intro before value after sound outside runs
  obtain ⟨answer, middle, firstly, secondly⟩ := ok_of_bind runs
  obtain ⟨middleSound, middleOutside, middleGrows, earlier⟩ :=
    ofFirst before answer middle sound outside firstly
  obtain ⟨afterSound, afterOutside, afterGrows, later⟩ :=
    ofNext answer middle value after middleSound middleOutside secondly
  exact ⟨afterSound, afterOutside, middleGrows.trans afterGrows, fun grown =>
    (earlier (afterGrows.trans grown)).trans (later grown)⟩

/-- A step that compiles no operation of its own. -/
theorem InScope.after (ofFirst : InScope outer origin catalog first [])
    (ofNext : ∀ value, InScope outer origin catalog (next value) operations) :
    InScope outer origin catalog (first >>= next) operations := ofFirst.bind ofNext

theorem InScope.before (ofFirst : InScope outer origin catalog first operations)
    (ofNext : ∀ value, InScope outer origin catalog (next value) []) :
    InScope outer origin catalog (first >>= next) operations :=
  List.append_nil operations ▸ ofFirst.bind ofNext

/-- Code without a new constant, for an operation that is no local. -/
theorem InScope.emit (keeps : action.KeepsPool)
    (noLocal : ∀ info symbol, .localVariable info symbol ∉ operations) :
    InScope outer origin catalog (emit action) operations := by
  intro before value after sound outside runs
  obtain ⟨_, emitted, rfl⟩ := emit_ok runs
  refine ⟨{ sound with pool := ?_ }, outside, .refl _, fun _ => ⟨fun _ => .inl, ?_⟩⟩
  · exact keeps _ _ _ emitted ▸ sound.pool
  · intro front info symbol back isOperations
    exact absurd (isOperations ▸ List.mem_append_right front (.head _)) (noLocal info symbol)

theorem InScope.plain (keeps : action.KeepsPool) :
    InScope outer origin catalog (Compile.emit action) [] :=
  .emit keeps fun _ _ => List.not_mem_nil

theorem InScope.throw (error : CompilationError) (operations : List Operation) :
    InScope outer origin catalog (throw error : Compile α) operations := by
  intro before value after _ _ runs
  cases runs

theorem InScope.pure (value : α) : InScope outer origin catalog (pure value : Compile α) [] := by
  intro before result after sound outside runs
  cases runs
  exact ⟨sound, outside, .refl _, fun _ => ⟨fun _ => .inl, by simp⟩⟩

theorem InScope.setLine (operation : Operation) {next : Unit -> Compile β}
    (noLocal : ∀ info symbol, .localVariable info symbol ≠ operation) (line : UInt32)
    (ofNext : InScope outer origin catalog (next ())
      (evaluated catalog (operation.evaluatedChildren catalog))) :
    InScope outer origin catalog (Compile.emit (.setLine line) >>= next)
      (evaluated catalog [operation]) := by
  rw [evaluated_single]
  refine .bind (.emit (.setLine line) fun info symbol member => ?_) fun _ => ofNext
  exact noLocal info symbol (List.mem_singleton.mp member)

variable {operation : Operation}

theorem InScope.cons {first : Compile α} {next : α -> Compile β}
    (ofFirst : InScope outer origin catalog first (evaluated catalog [operation]))
    (ofNext : ∀ value, InScope outer origin catalog (next value) (evaluated catalog rest)) :
    InScope outer origin catalog (first >>= next) (evaluated catalog (operation :: rest)) :=
  evaluated_append [operation] rest ▸ ofFirst.bind ofNext

theorem InScope.declareLocal (info : Info) (symbol : LocalSymbol) (initializer : Option Operation) :
    InScope outer origin catalog (declareLocal symbol) [.declaration info symbol initializer] := by
  intro before slot after sound outside runs
  obtain ⟨afterSound, extended, sameDepth, _⟩ :=
    quiet_declareLocal symbol before slot after sound runs
  refine ⟨afterSound, sameDepth.trans outside, extended.catalog, fun _ => ⟨?_, ?_⟩⟩
  · intro id isKnown
    rcases declareLocal_ok runs with ⟨_, rfl⟩ | ⟨_, _, _, rfl⟩
    · exact .inl isKnown
    · rw [Std.HashMap.getElem?_insert] at isKnown
      split at isKnown
      · rename_i same
        exact .inr ⟨info, symbol, initializer, List.mem_singleton_self _, beq_iff_eq.mp same⟩
      · exact .inl isKnown
  · intro front name other back split
    have member : localVariable name other ∈ [.declaration info symbol initializer] :=
      split ▸ List.mem_append_right front (.head _)
    cases List.mem_singleton.mp member

end

section

variable {outer : Surroundings} {origin catalog : Catalog}
  (conservative : outer.Conservative) (hasBases : catalog.HasBases)

include conservative hasBases

/-- An expression uses only locals that are known when it begins. -/
theorem InScope.code (use : ValueUse) (operation : Operation) :
    InScope outer origin catalog (code outer use operation) (evaluated catalog [operation]) := by
  have emits := @compiles_code (expressionSite outer origin) use operation fun _ _ => trivial
  intro before value after sound outside runs
  obtain ⟨⟨afterSound, extended, sameDepth⟩, _, _, _, translates⟩ :=
    emits.run before value after ⟨conservative, sound, outside⟩ runs
  have same := KeepsLocals.of_stepped emits.stepped before value after runs
  refine ⟨afterSound, sameDepth.trans outside, extended.catalog, fun grown => ⟨?_, ?_⟩⟩
  · exact fun id isKnown => .inl (same ▸ isKnown)
  · intro front info symbol back split
    have resolves := (translates after (.refl _) (Nat.zero_le _)).everywhere grown hasBases
      (fun _ _ => trivial) (.localVariable info symbol)
      (split ▸ List.mem_append_right front (.head _))
    obtain ⟨_, found⟩ := resolves
    rw [same] at found
    exact .inl (found ▸ rfl)

theorem InScope.startCode (symbol : LocalSymbol) (initializer : Option Operation) :
    InScope outer origin catalog (startCode outer symbol initializer)
      (evaluated catalog initializer.toList) := by
  cases initializer with
  | some value => exact .code conservative hasBases .kept value
  | none =>
    rw [Option.toList_none, evaluated_nil]
    have emits : Emits (expressionSite outer origin) (do
          let type ← resolve symbol.type
          Compile.emit (.defaultValue type))
        fun _ _ (_ : MarkedCode) => True :=
      .asking (asked_asks.resolve symbol.type) fun type =>
        .mono (.written (.withHash .pushDefault type rfl) rfl) fun _ _ _ _ _ => trivial
    intro before value after sound outside runs
    obtain ⟨⟨afterSound, extended, sameDepth⟩, _⟩ :=
      emits.run before value after ⟨conservative, sound, outside⟩ runs
    have same := KeepsLocals.of_stepped emits.stepped before value after runs
    exact ⟨afterSound, sameDepth.trans outside, extended.catalog,
      fun _ => ⟨fun _ isKnown => .inl (same ▸ isKnown), by simp⟩⟩

theorem InScope.returnCode (returnsValue : Bool) (value : Option Operation) :
    InScope outer origin catalog (returnCode outer returnsValue value)
      (evaluated catalog value.toList) := by
  cases value with
  | none =>
    rw [Compile.returnCode, Option.toList_none, evaluated_nil]
    split
    · exact .throw _ _
    · exact .plain (.opcode _)
  | some value =>
    rw [Compile.returnCode]
    split
    · exact .before (.code conservative hasBases .kept value) fun _ =>
        .plain (.opcode _)
    · exact .before (.code conservative hasBases .discarded value) fun _ =>
        .plain (.opcode _)

set_option linter.unusedSectionVars false in
mutual

/-- Statements make locals known in their order.  The induction is on the
statement, with an expression in the place of a statement as the base case. -/
theorem inScope_statementCode (returnsValue : Bool) (operation : Operation) :
    InScope outer origin catalog (statementCode outer returnsValue operation)
      (evaluated catalog [operation]) := by
  have onCode := @InScope.code _ origin _ conservative hasBases
  cases operation with simp only [statementCode]
  | block info operations =>
    exact .setLine (.block info operations) nofun _ (inScope_statementsCode returnsValue operations)
  | declaration info symbol initializer =>
    rw [evaluated_single]
    refine .after (.plain (.setLine _)) fun _ => ?_
    refine .bind (.declareLocal info symbol initializer) fun slot => ?_
    exact .before (.startCode conservative hasBases symbol initializer)
      fun _ => .plain (.setLocal slot)
  | returnStatement info value =>
    exact .setLine (.returnStatement info value) nofun _
      (.returnCode conservative hasBases returnsValue value)
  | whileLoop info condition body =>
    refine .setLine (.whileLoop info condition body) nofun _ ?_
    refine .after (.plain .offset) fun start => ?_
    refine .cons (onCode .kept condition) fun _ => ?_
    refine .after (.plain (.jump _)) fun leave => ?_
    refine .before (inScope_statementCode returnsValue body) fun _ => ?_
    exact .after (.plain (.loop _)) fun _ =>
      .plain (.patch _)
  | conditional info condition whenTrue whenFalse =>
    split
    · exact onCode .discarded _
    · refine .setLine (.conditional info condition whenTrue whenFalse) nofun _ ?_
      refine .cons (onCode .kept condition) fun _ => ?_
      refine .after (.plain (.jump _)) fun otherwise => ?_
      exact .cons (inScope_statementCode returnsValue whenTrue) fun _ =>
        inScope_alternativeCode returnsValue otherwise whenFalse
  | expressionStatement info expression =>
    exact .setLine (.expressionStatement info expression) nofun _ (onCode .discarded expression)
  | _ => exact onCode .discarded _

theorem inScope_statementsCode (returnsValue : Bool) : ∀ operations : List Operation,
    InScope outer origin catalog (statementsCode outer returnsValue operations)
      (evaluated catalog operations)
  | [] => by
      rw [statementsCode, evaluated_nil]
      exact .pure ()
  | head :: tail => by
      rw [statementsCode]
      exact .cons (inScope_statementCode returnsValue head) fun _ =>
        inScope_statementsCode returnsValue tail

theorem inScope_alternativeCode (returnsValue : Bool) (otherwise : Label) :
    ∀ branch : Option Operation, InScope outer origin catalog
        (alternativeCode outer returnsValue otherwise branch)
        (evaluated catalog branch.toList)
  | none => by
      rw [alternativeCode, Option.toList_none, evaluated_nil]
      exact .plain (.patch _)
  | some branch => by
      rw [alternativeCode]
      refine .after (.plain (.jump _)) fun finish => ?_
      refine .after (.plain (.patch _)) fun _ => ?_
      exact .before (inScope_statementCode returnsValue branch) fun _ =>
        .plain (.patch _)

end

theorem InScope.bodyCode (returnsValue : Bool) (operation : Operation) :
    InScope outer origin catalog (bodyCode outer returnsValue operation)
      (evaluated catalog [operation]) := by
  unfold Compile.bodyCode
  split
  · exact .before (inScope_statementCode conservative hasBases _ _) fun _ =>
      .plain (.opcode _)
  · split
    · split
      · exact .before (.code conservative hasBases _ _) fun _ =>
          .plain (.opcode _)
      · exact .throw _ _
    · exact .before (.code conservative hasBases _ _) fun _ =>
        .plain (.opcode _)

end

end Compile

end OpMachine
