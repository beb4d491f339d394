import OpMachine.Proofs.TranslationSound

namespace OpMachine

/-!
# Compiled methods

A method that compiles has the bytes of the code that its body translates to,
and its tables are those of the finished body.  Every compilation on the way,
of an anonymous function or of a called method, lets the catalog grow.  So the
surroundings in which a declared method is compiled are conservative, and the
translation relation holds without assumptions on them.
-/

/-- What a compiled method has from the finished body it was made of. -/
structure CompiledMethod.Encodes (method : CompiledMethod) (surroundings : Surroundings)
    (origin : Catalog) (symbol : MethodSymbol) (operation : Operation) (finished : Body)
    (code : MarkedCode) : Prop where
  sound : finished.Sound surroundings origin
  translates : Compile.Translates surroundings origin finished 0 0
    (.body symbol.returnsValue operation) code
  fits : code.Fits
  values : method.chunk.values = code.bytes
  pool : method.pool = finished.emitter.pool
  lambdas : method.lambdas = finished.lambdas
  callees : method.callees = finished.callees
  owner : finished.slots.owner = symbol.id
  receiver : finished.slots.hasReceiver = method.hasReceiver
  localCount : method.localCount = finished.slots.localCount
  parameters : finished.slots.parameterCount = symbol.parameters.length
  parameterCount : method.parameterCount = symbol.parameters.length
  returnsValue : method.returnsValue = symbol.returnsValue
  name : method.name = symbol.name

namespace Make

variable {outer : Surroundings} {symbol : MethodSymbol} {operation : Operation}
  {before after : Workspace} {compiled : CompiledMethod} {α : Type} {function : CompiledFunction}
  {source : Source} {levels : Nat} {active : List SymbolId}

theorem sound_start (symbol : MethodSymbol) (hasReceiver : Bool) (workspace : Workspace) :
    Body.Sound outer workspace.catalog { slots := .ofMethod symbol hasReceiver, workspace } where
  pool := ConstantPool.sound_empty
  slots := by
    intro id slot found
    rw [show (SlotTable.ofMethod symbol hasReceiver).locals = {} from rfl,
      Std.HashMap.getElem?_empty] at found
    cases found
  distinct := by
    intro first second slot found
    rw [show (SlotTable.ofMethod symbol hasReceiver).locals = {} from rfl,
      Std.HashMap.getElem?_empty] at found
    cases found
  bounded := Nat.zero_le _
  callees := nofun
  lambdas := nofun
  fewLambdas := Nat.zero_le _
  origin := .refl _

/-- A method that compiles encodes its body. -/
theorem method_ok (conservative : outer.Conservative)
    (runs : method outer symbol hasReceiver operation before = .ok compiled after) :
    compiled.hasReceiver = hasReceiver ∧ ∃ finished code,
      compiled.Encodes outer before.catalog symbol operation finished code
        ∧ after = finished.workspace := by
  unfold method at runs
  simp only at runs
  split at runs
  · cases runs
  · rename_i finished run
    have emits := @Compile.compiles_bodyCode ⟨outer, before.catalog, 0, 0, fun _ => True, True⟩
      trivial symbol.returnsValue operation fun _ _ => trivial
    obtain ⟨⟨sound, extended, _⟩, code, bytes, fits, translates⟩ := emits.run _ () finished
      ⟨conservative, sound_start symbol hasReceiver before, rfl⟩ run
    cases runs
    exact ⟨rfl, finished, code,
      { sound, translates := translates finished (.refl _) (Nat.zero_le _), fits, values := bytes, pool := rfl
        lambdas := rfl, callees := rfl, owner := extended.owner, receiver := extended.hasReceiver
        localCount := rfl, parameters := extended.parameterCount
        parameterCount := extended.parameterCount, returnsValue := rfl, name := rfl }, rfl⟩

/-! ## Growth -/

theorem grows_method (conservative : outer.Conservative) (symbol : MethodSymbol)
    (hasReceiver : Bool) (operation : Operation) :
    Grows (method outer symbol hasReceiver operation) := by
  intro before compiled after runs
  obtain ⟨_, _, _, encodes, rfl⟩ := method_ok conservative runs
  exact encodes.sound.origin

/-- A property that holds of all steps of a compilation in a session of its own. -/
structure Nests (Holds : ∀ {α : Type}, Make α -> Prop) : Prop extends Asks Holds where
  number {α : Type} {step : Workspace -> α × Workspace}
    (same : ∀ before, (step before).2.catalog = before.catalog) :
    Holds (modifyGet step : Make α)
  ofExcept {α : Type} (result : Except CompilationError α) : Holds (ofExcept result : Make α)
  method {callee : MethodSymbol -> Make CompiledMethod}
    (callees : ∀ method, Holds (callee method)) (session : Session) (symbol : MethodSymbol)
    (hasReceiver : Bool) (operation : Operation) :
    Holds (method ⟨session, callee⟩ symbol hasReceiver operation)

namespace Nests

variable {Holds : ∀ {α : Type}, Make α -> Prop} (nests : Nests @Holds)
  {callee : MethodSymbol -> Make CompiledMethod} (callees : ∀ method, Holds (callee method))

include nests callees

theorem lambda (session : Session) (node : FunctionNode) : Holds (lambda callee session node) := by
  refine nests.bind (nests.number fun _ => rfl) fun opened => ?_
  refine nests.bind (nests.functionType _) fun type => ?_
  refine nests.bind (nests.method callees _ _ _ _) fun compiled => ?_
  refine nests.bind (nests.ofExcept _) fun added => nests.bind (nests.ofExcept _) fun held => ?_
  exact nests.bind (nests.ofExcept _) fun closed => nests.pure _

theorem lambdas (nodes : List FunctionNode) (session : Session) :
    Holds (lambdas callee session nodes) := by
  induction nodes generalizing session with
  | nil => exact nests.pure _
  | cons _ _ ih =>
    rw [Make.lambdas]
    split
    · exact ih session
    · exact nests.bind (nests.lambda callees _ _) fun next =>
        nests.bind (ih next) fun _ => nests.pure _

theorem topLevel (symbol : MethodSymbol) (operation : Operation) :
    Holds (topLevel callee symbol operation) := by
  refine nests.bind (nests.functionType _) fun type => ?_
  refine nests.bind (nests.number fun _ => rfl) fun started => ?_
  refine nests.bind (nests.number fun _ => rfl) fun opened => ?_
  refine nests.bind (nests.lambdas callees _ _) fun made => ?_
  refine nests.bind (nests.method callees _ _ _ _) fun compiled => ?_
  exact nests.bind (nests.ofExcept _) fun added =>
    nests.bind (nests.ofExcept _) fun closed => nests.pure _

end Nests

theorem nests_grows : Nests @Grows where
  toAsks := asks_grows
  number same := by
    intro before value after runs
    cases runs
    rw [same]
    exact .refl _
  ofExcept result := by
    cases result with
    | error error => exact grows_throw error
    | ok value => exact grows_pure value
  method callees _ := grows_method callees

theorem ofExcept_ok (runs : (ofExcept result : Make α) before = .ok value after) :
    result = .ok value ∧ after = before := by
  cases result with
  | error => cases runs
  | ok =>
    cases runs
    exact ⟨rfl, rfl⟩

/-- A declaration that compiles: its anonymous functions are compiled first, in
a session that has none yet, and then its body. -/
theorem topLevel_ok {callee : MethodSymbol -> Make CompiledMethod}
    (conservative : ∀ symbol, (callee symbol).Grows)
    (runs : topLevel callee symbol operation before = .ok function after) :
    ∃ opened : Session, ∃ session prepared started,
      opened.lambdas = {} ∧ before.catalog.Grows prepared.catalog ∧ (∃ count,
          lambdas callee opened operation.functions prepared = .ok (session, count) started)
        ∧ prepared.catalog.Grows started.catalog
        ∧ method ⟨session, callee⟩ symbol false operation started = .ok function.method after
        ∧ ∃ typed, functionType symbol before
            = .ok (function.delegateType, function.signature) typed
          ∧ prepared.numbering.units = typed.numbering.units + 1 := by
  obtain ⟨⟨_, _⟩, typed, typing, runs⟩ := ok_of_bind runs
  obtain ⟨fresh, begun, beginning, runs⟩ := ok_of_bind runs
  obtain ⟨⟨_, _⟩, prepared, opening, runs⟩ := ok_of_bind runs
  obtain ⟨⟨session, count⟩, started, making, runs⟩ := ok_of_bind runs
  obtain ⟨_, _, compiling, runs⟩ := ok_of_bind runs
  obtain ⟨added, afterAdding, adding, runs⟩ := ok_of_bind runs
  obtain ⟨⟨_, _⟩, _, sealing, given⟩ := ok_of_bind runs
  obtain ⟨_, rfl⟩ := ofExcept_ok adding
  obtain ⟨_, rfl⟩ := ofExcept_ok sealing
  cases given
  cases beginning
  cases opening
  refine ⟨_, session, _, started, rfl, ?_, ⟨count, making⟩,
    nests_grows.lambdas conservative _ _ _ _ _ making, compiling, typed, typing, rfl⟩
  exact asks_grows.functionType symbol before _ typed typing

/-- The compilation of a method that is called while others are compiled. -/
def callee (source : Source) (levels : Nat) (active : List SymbolId) (method : MethodSymbol) :
    Make CompiledMethod := do
  match source.methodBody? method with
  | none => throw (.unresolvedType method.containingType.text)
  | some declaration =>
    if declaration.symbol.isStatic then
      let function ← nested source levels active declaration.symbol declaration.body
      return function.method
    else
      throw (.invalidSymbol "static method" declaration.symbol.signatureText)

theorem nested_succ (source : Source) (levels : Nat) (active : List SymbolId)
    (symbol : MethodSymbol) (operation : Operation) :
    nested source (levels + 1) active symbol operation =
      if active.contains symbol.id then cycle symbol
      else topLevel (callee source levels (symbol.id :: active)) symbol operation := rfl

namespace Asks

open CompilationError

variable {Holds : ∀ {α : Type}, Make α -> Prop} (asks : Asks @Holds)
  (topLevel : ∀ {callee}, (∀ method, Holds (callee method)) ->
    ∀ symbol operation, Holds (topLevel callee symbol operation))

include asks

private theorem callee_of_nested
    (nested : ∀ symbol operation, Holds (nested source levels active symbol operation))
    (method : MethodSymbol) : Holds (callee source levels active method) := by
  unfold callee
  split
  · exact asks.throw (.unresolvedType _)
  · split
    · exact asks.bind (nested _ _) fun function => asks.pure _
    · exact asks.throw (.invalidSymbol _ (by decide))

include topLevel

theorem nested (source : Source) (levels : Nat) (active : List SymbolId) (symbol : MethodSymbol)
    (operation : Operation) : Holds (nested source levels active symbol operation) := by
  induction levels generalizing active symbol operation with
  | zero => exact asks.throw (.unsupportedShape _)
  | succ _ ih =>
    rw [nested_succ]
    split
    · exact asks.throw (.unsupportedShape _)
    · exact topLevel (asks.callee_of_nested (ih _)) symbol operation

theorem callee (source : Source) (levels : Nat) (active : List SymbolId) (method : MethodSymbol) :
    Holds (callee source levels active method) :=
  asks.callee_of_nested (asks.nested topLevel source levels active) method

theorem declaration (source : Source) (id : SyntaxId) : Holds (declaration source id) := by
  unfold Make.declaration
  split
  · unfold declaredMethod
    split
    · exact asks.nested topLevel _ _ _ _ _
    · exact asks.throw (.invalidSymbol _ (by decide))
  · exact asks.nested topLevel _ _ _ _ _
  · exact asks.throw (.invalidSymbol _ (by decide))
  · exact asks.throw (.invalidSymbol _ (by decide))

end Asks

theorem grows_callee (source : Source) (levels : Nat) (active : List SymbolId)
    (method : MethodSymbol) : Grows (callee source levels active method) :=
  asks_grows.callee nests_grows.topLevel source levels active method

/-- A called method is a declared one, compiled at its own level. -/
theorem callee_ok (runs : callee source levels active symbol before = .ok compiled after) :
    ∃ declaration function, source.methodBody? symbol = some declaration
      ∧ nested source levels active declaration.symbol declaration.body before = .ok function after
      ∧ function.method = compiled := by
  unfold callee at runs
  cases found : source.methodBody? symbol with rw [found] at runs
  | none => cases runs
  | some declaration =>
    cases static : declaration.symbol.isStatic with
    | false =>
      simp only [static] at runs
      cases runs
    | true =>
      simp only [static, if_true] at runs
      obtain ⟨function, _, compiles, given⟩ := ok_of_bind runs
      cases given
      exact ⟨declaration, function, rfl, compiles, rfl⟩

theorem nested_ok
    (runs : nested source levels active symbol operation before = .ok function after) :
    ∃ fewer, topLevel (callee source fewer (symbol.id :: active)) symbol operation before
      = .ok function after := by
  cases levels with
  | zero => cases runs
  | succ fewer =>
    rw [nested_succ] at runs
    split at runs
    · cases runs
    · exact ⟨fewer, runs⟩

theorem conservative_callee (source : Source) (levels : Nat) (active : List SymbolId)
    (session : Session) :
    Surroundings.Conservative ⟨session, callee source levels active⟩ :=
  grows_callee source levels active

end Make
end OpMachine
