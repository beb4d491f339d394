import OpMachine.Compiler.Function
import OpMachine.Proofs.AnonymousFunctions
import OpMachine.Proofs.CatalogGrowth
import OpMachine.Proofs.Execution

namespace OpMachine

/-!
# The steps of a compilation

The compiler of a body is put together from a few steps: emitting code, asking
the catalog, handing out slots, compiling a called method, entering a function
or a method in a table, and giving up.  `Compile.Stepped` says so.  A property of
computations that holds of these steps and is kept when computations are put one
after another holds of the whole compiler.  Unlike what is said by the
translation relation, such a property may speak about compilations that fail.
-/

/-! ## Failures -/

/-- Every failure other than that of an anonymous function that has not been
compiled before the code that loads it. -/
def CompilationError.IsOrdinary (error : CompilationError) : Prop :=
  ∀ found, error ≠ .invalidSymbol "materialized anonymous function" found

namespace CompilationError

theorem IsOrdinary.unresolvedType (name : String) : (unresolvedType name).IsOrdinary :=
  nofun

theorem IsOrdinary.unresolvedOverload (name : String) (parameters : List String) :
    (unresolvedOverload name parameters).IsOrdinary := nofun

theorem IsOrdinary.unsupportedShape (shape : String) : (unsupportedShape shape).IsOrdinary :=
  nofun

variable {last : String}

/-- A text whose last part ends in another way than a given text. -/
private theorem append_ne_of_getLast? {first whole : String}
    (different : last.toList.getLast? ≠ none ∧ last.toList.getLast? ≠ whole.toList.getLast?) :
    first ++ last ≠ whole := by
  rintro rfl
  apply different.2
  rw [String.toList_append, List.getLast?_append]
  cases found : last.toList.getLast? with
  | none => exact absurd found different.1
  | some => rfl

theorem IsOrdinary.invalidSymbol (found : String)
    (different : expected ≠ "materialized anonymous function") :
    (invalidSymbol expected found).IsOrdinary := by
  intro other same
  cases same
  exact different rfl

theorem IsOrdinary.miscounted (rank count : Nat) :
    (CompilationError.invalidSymbol (toString rank ++ " dimension sizes")
      (toString count)).IsOrdinary :=
  .invalidSymbol _ (append_ne_of_getLast? (by decide))

theorem IsOrdinary.missingReceiver (member : String) :
    (CompilationError.invalidSymbol ("receiver for instance member '" ++ member ++ "'")
      "no instance").IsOrdinary :=
  .invalidSymbol _ (append_ne_of_getLast? (by decide))

end CompilationError

/-- All failures of a computation are of some sort. -/
def EStateM.FailsWith {ε σ α : Type} (Allowed : ε -> Prop) (action : EStateM ε σ α) : Prop :=
  ∀ before error after, action before = .error error after -> Allowed error

namespace EStateM.FailsWith

variable {ε σ α β : Type} {Allowed : ε -> Prop} {first : EStateM ε σ α} {next : α -> EStateM ε σ β}

theorem of_ok {action : EStateM ε σ α}
    (runs : ∀ before, ∃ value after, action before = .ok value after) :
    FailsWith Allowed action := by
  intro before error after fails
  obtain ⟨_, _, isOk⟩ := runs before
  cases isOk.symm.trans fails

theorem pure (value : α) : FailsWith Allowed (Pure.pure value : EStateM ε σ α) :=
  .of_ok fun _ => ⟨_, _, rfl⟩

theorem throw (allowed : Allowed error) :
    FailsWith Allowed (MonadExcept.throw error : EStateM ε σ α) := by
  intro before other after fails
  cases fails
  exact allowed

theorem bind_of_ok (ofFirst : FailsWith Allowed first)
    (ofNext : ∀ before value after, first before = .ok value after ->
      FailsWith Allowed (next value)) : FailsWith Allowed (first >>= next) := by
  intro before error after fails
  cases run : first before with
  | ok value middle =>
    rw [OpMachine.bind_of_ok run] at fails
    exact ofNext before value middle run middle error after fails
  | error =>
    rw [bind_of_error run] at fails
    cases fails
    exact ofFirst before error after run

theorem bind (ofFirst : FailsWith Allowed first)
    (ofNext : ∀ value, FailsWith Allowed (next value)) : FailsWith Allowed (first >>= next) :=
  ofFirst.bind_of_ok fun _ value _ _ => ofNext value

end EStateM.FailsWith

namespace Emit

/-- An emission that fails only because something is too large. -/
abbrev IsOrdinary {α : Type} (action : Emit α) : Prop :=
  EStateM.FailsWith CompilationError.IsOrdinary action

theorem IsOrdinary.setLine (line : UInt32) : (setLine line).IsOrdinary :=
  .of_ok fun _ => ⟨_, _, rfl⟩

theorem IsOrdinary.offset : offset.IsOrdinary := .of_ok fun _ => ⟨_, _, rfl⟩

theorem IsOrdinary.opcode (code : Opcode) : (opcode code).IsOrdinary :=
  .of_ok fun _ => ⟨_, _, rfl⟩

theorem IsOrdinary.operandWord (value : UInt16) : (operandWord value).IsOrdinary :=
  .of_ok fun _ => ⟨_, _, rfl⟩

theorem IsOrdinary.intern (constant : Constant) : (intern constant).IsOrdinary := by
  refine .bind (.of_ok fun _ => ⟨_, _, rfl⟩) fun index => ?_
  split
  · exact .pure _
  · exact .throw (.unsupportedShape _)

theorem IsOrdinary.jump (code : Opcode) : (jump code).IsOrdinary :=
  .bind (opcode code) fun _ => .bind offset fun _ =>
    .bind (operandWord _) fun _ => .pure _

theorem IsOrdinary.patch (label : Label) : (patch label).IsOrdinary := by
  refine .bind offset fun offset => ?_
  simp only
  split
  · exact .of_ok fun _ => ⟨_, _, rfl⟩
  · exact .throw (.unsupportedShape _)

theorem IsOrdinary.loop (target : Nat) : (loop target).IsOrdinary := by
  refine .bind (opcode _) fun _ => .bind offset fun offset => ?_
  simp only
  split
  · exact operandWord _
  · exact .throw (.unsupportedShape _)

end Emit

/-! ## Functions in a tree -/

/-- The symbols of all anonymous functions in a tree are known. -/
def Operation.Knows (Known : SymbolId -> Prop) (operation : Operation) : Prop :=
  ∀ node, node ∈ operation.functions -> Known node.symbol.id

theorem Operation.Knows.child {operation child : Operation} (knows : operation.Knows Known)
    (member : child ∈ operation.children := by simp [OpMachine.Operation.children]) :
    child.Knows Known :=
  fun node isInside => knows node (functions_subset_of_mem_children member isInside)

theorem Operation.Knows.each {operation : Operation} {Part : Operation -> Prop}
    (knows : operation.Knows Known)
    (within : ∀ child, Part child -> child ∈ operation.children := by
      simp +contextual [OpMachine.Operation.children]) (child : Operation) (isPart : Part child) :
    child.Knows Known :=
  knows.child (within child isPart)

/-! ## Questions to the catalog -/

namespace Make

/-- A property of computations that holds of questions to the catalog and is kept
by putting them one after another. -/
structure Asks (Holds : ∀ {α : Type}, Make α -> Prop) : Prop where
  pure {α : Type} (value : α) : Holds (pure value : Make α)
  bind {α β : Type} {first : Make α} {next : α -> Make β} (ofFirst : Holds first)
    (ofNext : ∀ value, Holds (next value)) : Holds (first >>= next)
  throw {α : Type} {error : CompilationError} (ordinary : error.IsOrdinary) :
    Holds (throw error : Make α)
  lookup {α : Type} {action : Lookup α} (closes : action.Closes) : Holds (lookup action)

namespace Asks

variable {Holds : ∀ {α : Type}, Make α -> Prop} (asks : Asks @Holds)

include asks

theorem resolve (descriptor : Descriptor) : Holds (resolve descriptor) := by
  refine asks.bind (asks.lookup (Catalog.regular_resolve _).closes) fun answer => ?_
  cases answer with
  | some type => exact asks.pure type
  | none => exact asks.throw (.unresolvedType _)

theorem resolveAll (descriptors : List Descriptor) : Holds (resolveAll descriptors) := by
  induction descriptors with
  | nil => exact asks.pure []
  | cons head _ ih => exact asks.bind (asks.resolve head) fun _ => asks.bind ih fun _ => asks.pure _

theorem functionType (symbol : MethodSymbol) : Holds (functionType symbol) := by
  have unresolved {α : Type} : Holds (MonadExcept.throw
      (CompilationError.unresolvedType symbol.signatureText) : Make α) :=
    asks.throw (.unresolvedType _)
  refine asks.bind (asks.resolveAll _) fun _ => ?_
  split
  all_goals
    try refine asks.bind (asks.resolve _) fun _ => ?_
    refine asks.bind (asks.lookup (Catalog.regular_functionType _).closes) fun answer => ?_
    cases answer with
    | none => exact unresolved
    | some =>
      refine asks.bind (asks.lookup (Catalog.closes_delegateSignature _)) fun answer => ?_
      cases answer with
      | none => exact unresolved
      | some => exact asks.pure _

end Asks
end Make

/-! ## Steps -/

open Compile

namespace Compile

variable {α : Type}

theorem make_bind {β : Type} (first : Make α) (next : α -> Make β) :
    make (first >>= next) = make first >>= fun value => make (next value) := by
  funext body
  cases run : first body.workspace with
  | ok | error => simp only [make, bind, EStateM.bind, run]

/-- A property of computations that holds of questions to the catalog and to the
body, and is kept by putting them one after another. -/
structure Asks (Holds : ∀ {α : Type}, Compile α -> Prop) : Prop where
  pure {α : Type} (value : α) : Holds (pure value : Compile α)
  bind {α β : Type} {first : Compile α} {next : α -> Compile β} (ofFirst : Holds first)
    (ofNext : ∀ value, Holds (next value)) : Holds (first >>= next)
  throw {α : Type} {error : CompilationError} (ordinary : error.IsOrdinary) :
    Holds (throw error : Compile α)
  body : Holds (get : Compile Body)
  lookup {α : Type} {action : Lookup α} (closes : action.Closes) :
    Holds (make (Make.lookup action))

/-- A computation that is put together from the steps of a compilation.  Functions
are loaded only under known symbols, and locals may be declared or not. -/
inductive Stepped (surroundings : Surroundings) (Known : SymbolId -> Prop) (declares : Prop) :
    {α : Type} -> Compile α -> Prop
  | pure {α : Type} (value : α) : Stepped surroundings Known declares (pure value)
  | bind {α β : Type} {first : Compile α} {next : α -> Compile β}
      (ofFirst : Stepped surroundings Known declares first)
      (ofNext : ∀ value, Stepped surroundings Known declares (next value)) :
      Stepped surroundings Known declares (first >>= next)
  | throw {α : Type} {error : CompilationError} (ordinary : error.IsOrdinary) :
      Stepped surroundings Known declares (throw error : Compile α)
  | body : Stepped surroundings Known declares (get : Compile Body)
  | lookup {α : Type} {action : Lookup α} (closes : action.Closes) :
      Stepped surroundings Known declares (make (Make.lookup action))
  | emit {α : Type} {action : Emit α} (ordinary : action.IsOrdinary) :
      Stepped surroundings Known declares (emit action)
  | parameterSlot (symbol : ParameterSymbol) :
      Stepped surroundings Known declares (parameterSlot symbol)
  | localSlot (symbol : LocalSymbol) : Stepped surroundings Known declares (localSlot symbol)
  | freshSlot : Stepped surroundings Known declares freshSlot
  | implicitReceivers (change : Nat -> Nat) :
      Stepped surroundings Known declares (modify fun body =>
        { body with implicitReceivers := change body.implicitReceivers } : Compile Unit)
  | callee (method : MethodSymbol) :
      Stepped surroundings Known declares (make (surroundings.callee method) >>= addCallee)
  | lambdaIndex {symbol : SymbolId} (known : Known symbol) :
      Stepped surroundings Known declares (lambdaIndex surroundings.session symbol)
  | declareLocal (allowed : declares) (symbol : LocalSymbol) :
      Stepped surroundings Known declares (declareLocal symbol)

/-! ### Questions -/

namespace Asks

open CompilationError

variable {Holds : ∀ {α : Type}, Compile α -> Prop} {α : Type} (asks : Asks @Holds)

include asks

theorem unsupported (shape : String) : Holds (unsupported shape : Compile α) :=
  asks.throw (.unsupportedShape shape)

theorem invalid (found : String) (different : expected ≠ "materialized anonymous function") :
    Holds (invalid expected found : Compile α) :=
  asks.throw (.invalidSymbol found different)

theorem catalog : Holds catalog := by
  exact asks.bind asks.body fun _ => asks.pure _

theorem ofMake : Make.Asks fun action => Holds (make action) where
  pure := asks.pure
  bind := fun {_ _ first next} ofFirst ofNext => by
    rw [make_bind]
    exact asks.bind ofFirst ofNext
  throw := asks.throw
  lookup := asks.lookup

theorem resolve (descriptor : Descriptor) : Holds (resolve descriptor) :=
  asks.ofMake.resolve descriptor

theorem resolveAll (descriptors : List Descriptor) : Holds (resolveAll descriptors) :=
  asks.ofMake.resolveAll descriptors

theorem staticType (operation : Operation) : Holds (staticType operation) := by
  unfold Compile.staticType
  split
  · exact asks.resolve _
  · exact asks.invalid _ (by decide)

variable (owner : TypeHash)

theorem unresolvedOverload (name : String) (requested : List TypeHash) :
    Holds (unresolvedOverload owner name requested : Compile α) :=
  asks.bind asks.catalog fun _ => asks.throw (.unresolvedOverload _ _)

theorem selectOverload (name : String) (requested : List TypeHash) (candidates : List Candidate) :
    Holds (selectOverload owner name requested candidates) := by
  refine asks.bind asks.catalog fun catalog => ?_
  split
  · exact asks.pure _
  · exact asks.unresolvedOverload _ _ _

theorem closeMethod (method : MethodEntry) (arguments : List TypeHash) (owner : TypeHash)
    (requested : List TypeHash) : Holds (closeMethod method arguments owner requested) := by
  refine asks.bind (asks.lookup (fun _ => .closeMethod .nothing _ _)) fun answer => ?_
  cases answer with
  | some closed => exact asks.pure closed
  | none => exact asks.unresolvedOverload _ _ _

variable (symbol : MemberSymbol)

theorem memberAccess : Holds (memberAccess symbol) := by
  refine asks.bind (asks.resolve _) fun owner => asks.bind asks.catalog fun catalog => ?_
  split
  · split
    · exact asks.unsupported _
    · exact asks.pure _
  · split
    · exact asks.pure _
    · exact asks.unresolvedOverload _ _ _

theorem readableMember : Holds (readableMember symbol) := by
  refine asks.bind (asks.memberAccess symbol) fun access => ?_
  split
  · exact asks.pure _
  · exact asks.unsupported _

theorem writableMember : Holds (writableMember symbol) := by
  refine asks.bind (asks.memberAccess symbol) fun access => ?_
  split
  · exact asks.pure _
  · exact asks.unsupported _

theorem argumentCount (count : Nat) : Holds (argumentCount count) := by
  unfold Compile.argumentCount
  split
  · exact asks.pure _
  · exact asks.unsupported _

theorem elementRank (indices : List Operation) : Holds (elementRank indices) := by
  unfold Compile.elementRank
  split
  · exact asks.pure _
  · exact asks.unsupported _

theorem hostMethod (method : MethodSymbol) : Holds (hostMethod owner method) := by
  refine asks.bind (asks.resolveAll _) fun requested =>
    asks.bind asks.catalog fun catalog =>
      asks.bind (asks.selectOverload _ _ _ _) fun selected => ?_
  split
  · split
    · exact asks.throw (.invalidSymbol _ (append_ne_of_getLast? (by decide)))
    · exact asks.bind (asks.resolveAll _) fun arguments => asks.closeMethod _ _ _ _
  · exact asks.pure _

theorem constructorOf (symbol : MethodSymbol) : Holds (constructorOf symbol) :=
  asks.bind (asks.resolve _) fun _ => asks.bind (asks.resolveAll _) fun _ =>
    asks.bind asks.catalog fun _ =>
      asks.bind (asks.selectOverload _ _ _ _) fun _ => asks.pure _

theorem arrayType (info : Info) : Holds (arrayType info) := by
  unfold Compile.arrayType
  split
  · refine asks.bind (asks.resolve _) fun type => ?_
    refine asks.bind (asks.lookup (Catalog.regular_closeArray _ _).closes) fun answer => ?_
    cases answer with
    | some => exact asks.pure _
    | none => exact asks.throw (.unresolvedType _)
  · exact asks.invalid _ (by decide)
  · exact asks.invalid _ (by decide)

theorem textBuilder : Holds textBuilder := by
  refine asks.bind asks.catalog fun catalog => ?_
  split
  · exact asks.pure _
  · exact asks.throw (.unresolvedType _)

theorem builderMethod (builder : TypeHash) (name : String) (requested : List TypeHash) :
    Holds (builderMethod builder name requested) :=
  asks.bind asks.catalog fun _ => asks.selectOverload _ _ _ _

theorem appendHole (builder : TypeHash) (value : Operation) (arguments : List HoleArgument) :
    Holds (appendHole builder value arguments) := by
  unfold Compile.appendHole
  split
  · exact asks.unsupported _
  · exact asks.bind (asks.staticType value) fun _ =>
      asks.bind (asks.builderMethod _ _ _) fun _ =>
        asks.bind (asks.closeMethod _ _ _ _) fun _ => asks.pure _

theorem requireImplicitReceiver : Holds requireImplicitReceiver := by
  refine asks.bind asks.body fun body => ?_
  split
  · exact asks.unsupported _
  · exact asks.pure ()

end Asks

/-! ### Calls -/

namespace Stepped

variable {outer : Surroundings} {Known : SymbolId -> Prop} {declares : Prop}

theorem asks : Asks (Stepped outer Known declares) where
  pure := .pure
  bind := .bind
  throw := .throw
  body := .body
  lookup := .lookup

theorem declaredMethod (hasReceiver : Bool) (method : MethodSymbol) (count : Nat) :
    Stepped outer Known declares (declaredMethod outer hasReceiver method count) := by
  have rest : Stepped outer Known declares (do
      let _ ← argumentCount count
      if method.id = (← get).slots.owner then
        return .self
      else
        let callee ← make (outer.callee method)
        return .declared (← addCallee callee) : Compile CallTarget) := by
    refine .bind (asks.argumentCount count) fun _ => .bind .body fun body => ?_
    split
    · exact .pure _
    · rw [← bind_assoc]
      exact .bind (.callee method) fun _ => .pure _
  unfold Compile.declaredMethod
  split
  · exact .bind (asks.invalid _ (by decide)) fun _ => rest
  · exact rest

theorem callTarget (hasReceiver : Bool) (method : MethodSymbol) (count : Nat) :
    Stepped outer Known declares (callTarget outer hasReceiver method count) := by
  refine .bind (.lookup (Catalog.regular_resolve _).closes) fun answer => ?_
  cases answer with
  | some owner => exact .bind (asks.hostMethod owner method) fun _ => .pure _
  | none => exact declaredMethod _ _ _

end Stepped
end Compile
end OpMachine
