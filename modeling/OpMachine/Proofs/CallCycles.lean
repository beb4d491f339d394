import OpMachine.Proofs.CompilationEnds
import OpMachine.Proofs.EvaluatedParts

namespace OpMachine

/-!
# Calls among declared methods

Wherever code calls a declared method the method is compiled once more, inside
the compilation at hand.  Only the call of the body at hand itself is an
instruction of its own.  So a declaration that compiles comes to finitely many
copies of others, none of them inside a copy of itself, and a declaration from
which a cycle of calls is reached does not compile.
-/

/-! ## The calls of a body -/

/-- The code of a body for the declared methods that it calls.  A call of the body
itself has an instruction of its own; for any other a method was compiled. -/
def CompiledMethod.MakesCalls (method : CompiledMethod) (catalog : Catalog) (owner : SymbolId)
    (operation : Operation) (Copies : MethodSymbol -> CompiledMethod -> Prop) : Prop :=
  ∃ instructions : List Instruction,
    method.chunk.values = instructions.flatMap Instruction.bytes
      ∧ ∀ info receiver called arguments,
        .invocation info receiver called arguments ∈ Operation.evaluated catalog [operation] ->
        catalog.denoted? called.containingType = none ->
          (called.id = owner ∧ .withByte .callSelf arguments.length.toUInt8 rfl ∈ instructions)
          ∨ (called.id ≠ owner ∧ ∃ index callee,
            .callUnit index arguments.length.toUInt8 ∈ instructions
              ∧ method.callees[index.toNat]? = some callee ∧ Copies called callee)

variable {operation : Operation} {catalog : Catalog}

theorem CompiledMethod.MakesCalls.mono {method : CompiledMethod}
    (makes : method.MakesCalls catalog owner operation Copies)
    (implies : ∀ called callee, Copies called callee -> Others called callee) :
    method.MakesCalls catalog owner operation Others := by
  obtain ⟨instructions, isCode, calls⟩ := makes
  refine ⟨instructions, isCode, ?_⟩
  intro info receiver called arguments member foreign
  rcases calls info receiver called arguments member foreign with
    self | ⟨different, index, callee, isCalled, stored, copies⟩
  · exact .inl self
  · exact .inr ⟨different, index, callee, isCalled, stored, implies called callee copies⟩

/-- The methods that are compiled for the calls of a body. -/
def Surroundings.Copies (surroundings : Surroundings) (before after : Catalog)
    (called : MethodSymbol) (callee : CompiledMethod) : Prop :=
  ∃ started ended, before.Grows started.catalog
    ∧ surroundings.callee called started = .ok callee ended ∧ ended.catalog.Grows after

/-- A body that compiles has code for all calls of declared methods in it. -/
theorem Make.makesCalls_of_method (conservative : outer.Conservative)
    (compiles : method outer symbol hasReceiver operation before = .ok compiled after)
    (grown : after.catalog.Grows catalog) (hasBases : catalog.HasBases) :
    compiled.MakesCalls catalog symbol.id operation
      (outer.Copies before.catalog after.catalog) := by
  obtain ⟨_, _, code, encodes, rfl⟩ := method_ok conservative compiles
  refine ⟨code.instructions, encodes.values, ?_⟩
  intro info receiver called arguments member foreign
  have emitted : code.Every (· ∈ code.instructions) := fun _ isThere => isThere
  obtain ⟨_, _, _, found, calls, inCode⟩ :=
    encodes.translates.everywhere grown hasBases emitted _ member
  have unknown : before.catalog.denoted? called.containingType = none := by
    rw [← (encodes.sound.origin.trans grown).toSameRegistered.denoted?, foreign]
  rw [← encodes.owner]
  rcases found.declared unknown with
    ⟨rfl, isOwner⟩ | ⟨callee, index, started, ended, rfl, stored, made, begun, finishes, different⟩
  · cases calls with
    | self => exact .inl ⟨isOwner, inCode _ (.head _)⟩
  · cases calls with
    | declared =>
      refine .inr ⟨different, index, callee, inCode _ (.head _), ?_, started, ended,
        begun, made, finishes⟩
      rw [encodes.callees, stored]

/-! ## Cycles of calls -/

/-- A body calls a declared method that is not the body itself. -/
def Operation.CallsOther (catalog : Catalog) (owner : SymbolId) (operation : Operation)
    (called : MethodSymbol) : Prop :=
  ∃ info receiver arguments,
    .invocation info receiver called arguments ∈ evaluated catalog [operation]
      ∧ catalog.denoted? called.containingType = none ∧ called.id ≠ owner

/-- One declaration calls another, in its own body or in an anonymous function. -/
def Source.Calls (source : Source) (catalog : Catalog) (caller callee : MethodDeclaration) : Prop :=
  ∃ symbol : MethodSymbol, ∃ operation called,
    caller.Compiles symbol operation ∧ operation.CallsOther catalog symbol.id called
      ∧ source.methodBody? called = some callee

/-- A declaration compiles while others are under compilation, before a catalog
has grown to a later one. -/
def Source.CompilesInside (source : Source) (catalog : Catalog) (active : List SymbolId)
    (declaration : MethodDeclaration) : Prop :=
  ∃ levels before function after,
    Make.nested source levels active declaration.symbol declaration.body before
        = .ok function after
      ∧ after.catalog.Grows catalog

namespace Source.CompilesInside

variable {source : Source} {catalog : Catalog} {active : List SymbolId}
  {declaration : MethodDeclaration}

theorem fresh (inside : source.CompilesInside catalog active declaration) :
    declaration.symbol.id ∉ active := by
  obtain ⟨_, _, _, _, compiles, _⟩ := inside
  obtain ⟨_, notActive, _⟩ := Make.bodies_of_nested compiles
  exact notActive

section

variable (hasBases : catalog.HasBases)
  (inside : source.CompilesInside catalog active declaration)

include hasBases inside

theorem callee (calls : source.Calls catalog declaration called) :
    source.CompilesInside catalog (declaration.symbol.id :: active) called := by
  obtain ⟨_, _, function, _, compiles, grown⟩ := inside
  obtain ⟨symbol, operation, name, isBody, ⟨info, receiver, arguments, member, foreign, different⟩,
    isCalled⟩ := calls
  obtain ⟨fewer, _, bodies⟩ := Make.bodies_of_nested compiles
  obtain ⟨session, hasReceiver, started, ended, made, begun, making, finishes⟩ := bodies isBody
  obtain ⟨_, _, makes⟩ := Make.makesCalls_of_method
    (Make.conservative_callee source fewer (declaration.symbol.id :: active) session)
    making (finishes.trans grown) hasBases
  rcases makes info receiver name arguments member foreign with
    ⟨same, _⟩ | ⟨_, _, compiled, _, _, calling, called, begins, runs, ends⟩
  · exact absurd same different
  · obtain ⟨_, function, isOther, compiles, _⟩ := Make.callee_ok runs
    cases isCalled.symm.trans isOther
    exact ⟨fewer, calling, function, called, compiles, ends.trans (finishes.trans grown)⟩

/-- The same along a path of calls, on which every declaration is under
compilation when the next one is compiled. -/
theorem of_transGen (path : Relation.TransGen (source.Calls catalog) declaration last) :
    ∃ deeper, declaration.symbol.id ∈ deeper ∧ source.CompilesInside catalog deeper last := by
  induction path with
  | single calls => exact ⟨_, (.head _), inside.callee hasBases calls⟩
  | tail _ calls ih =>
    obtain ⟨_, member, between⟩ := ih
    exact ⟨_, .tail _ member, between.callee hasBases calls⟩

theorem not_calls_self : ¬ Relation.TransGen (source.Calls catalog) declaration declaration := by
  intro path
  obtain ⟨_, member, again⟩ := inside.of_transGen hasBases path
  exact again.fresh member

theorem acyclic (path : Relation.ReflTransGen (source.Calls catalog) declaration reached) :
    ¬ Relation.TransGen (source.Calls catalog) reached reached := by
  rcases Relation.reflTransGen_iff_eq_or_transGen.mp path with rfl | path
  · exact inside.not_calls_self hasBases
  · obtain ⟨_, _, there⟩ := inside.of_transGen hasBases path
    exact there.not_calls_self hasBases

end

end Source.CompilesInside

/-! ## Stacks of compilations -/

/-- Declarations under compilation: none of them twice, and all declared methods
but the root. -/
structure Source.Stack (source : Source) (root : SymbolId) (active : List SymbolId) : Prop where
  distinct : active.Nodup
  declared : ∀ id, id ∈ active -> id = root ∨ id ∈ source.methods

namespace Source.Stack

variable {source : Source} {root : SymbolId} {active : List SymbolId}

theorem single : source.Stack root [root] where
  distinct := List.nodup_singleton root
  declared _ member := .inl (List.mem_singleton.mp member)

theorem enter (stack : source.Stack root active) (stored : source.IsStored)
    (found : source.methodBody? name = some declaration) (fresh : declaration.symbol.id ∉ active) :
    source.Stack root (declaration.symbol.id :: active) where
  distinct := List.nodup_cons.mpr ⟨fresh, stack.distinct⟩
  declared id member := by
    rcases List.mem_cons.mp member with rfl | outer
    · refine .inr ?_
      rw [stored _ _ found, Std.HashMap.mem_iff_isSome_getElem?]
      exact Option.isSome_iff_exists.mpr ⟨declaration, found⟩
    · exact stack.declared id outer

/-- There are no more compilations at a time than declared methods and the root. -/
theorem length_le (stack : source.Stack root active) : active.length ≤ source.methods.size + 1 := by
  have within : active ⊆ root :: source.methods.keys := by
    intro id member
    rcases stack.declared id member with rfl | known
    · exact .head _
    · exact .tail _ (Std.HashMap.mem_keys.mpr known)
  have shorter := (List.Nodup.subperm stack.distinct within).length_le
  rwa [List.length_cons, Std.HashMap.length_keys] at shorter

end Source.Stack

theorem Source.Makes.stacks {source : Source} (stored : source.IsStored)
    (makes : source.Makes Holds site method) (stack : source.Stack root site.active) :
    source.Makes (fun site method => source.Stack root site.active ∧ Holds site method)
      site method := by
  induction makes with
  | intro here called loaded calls loads _ _ calleesStack lambdasStack =>
    refine .intro ⟨stack, here⟩ called loaded calls loads ?_ ?_
    · intro callee member
      obtain ⟨_, _, found, enters⟩ := calls callee member
      refine calleesStack callee member ?_
      rw [enters.isActive]
      exact stack.enter stored found enters.fresh
    · exact fun lambda member => lambdasStack lambda member stack

/-! ## Whole compilations -/

/-- The declared method that a call names, compiled while others are. -/
def Source.CompilesTo (source : Source) (active : List SymbolId) (called : MethodSymbol)
    (callee : CompiledMethod) : Prop :=
  ∃ declaration levels before function after, source.methodBody? called = some declaration
      ∧ Make.nested source levels active declaration.symbol declaration.body before
        = .ok function after
      ∧ function.method = callee

namespace Make

variable {source : Source} {id : SyntaxId} {symbol : MethodSymbol} {operation : Operation}
  {before after : Workspace} {function : CompiledFunction}

/-- Everything that a declaration compiles to is made on a stack, and has code for
the calls of its body. -/
theorem makes_stacks (stored : source.IsStored)
    (isBody : source.body? id = some (symbol, operation))
    (compiles : declaration source id before = .ok function after) :
    ∃ site : Site, site.Enters [] symbol operation
      ∧ source.Makes (fun site method => source.Stack symbol.id site.active
        ∧ ∀ catalog, after.catalog.Grows catalog -> catalog.HasBases ->
          method.MakesCalls catalog site.symbol.id site.operation (source.CompilesTo site.active))
        site function.method := by
  obtain ⟨_, _, isSame, compiles⟩ := declaration_ok compiles
  cases isBody.symm.trans isSame
  have made : ∃ site : Site, site.Enters [] symbol operation
      ∧ source.Makes (fun site made => ∀ catalog, after.catalog.Grows catalog ->
        catalog.HasBases -> made.MakesCalls catalog site.symbol.id
          site.operation (source.CompilesTo site.active)) site function.method := by
    refine makes_nested (fun _ _ finishes making catalog grown hasBases => ?_)
      (Source.hasBody_of_body? isBody) (.refl _) compiles (.refl _)
    refine (makesCalls_of_method (conservative_callee source _ _ _) making
      (finishes.trans grown) hasBases).mono ?_
    rintro _ _ ⟨_, _, _, runs, _⟩
    obtain ⟨declaration, function, found, nests, isMethod⟩ := callee_ok runs
    exact ⟨declaration, _, _, function, _, found, nests, isMethod⟩
  obtain ⟨site, enters, makes⟩ := made
  refine ⟨site, enters, makes.stacks stored ?_⟩
  rw [enters.isActive]
  exact .single

theorem fails_of_cycle (isBody : source.body? id = some (symbol, operation))
    (grown : (EStateM.left (declaration source id) before).catalog.Grows catalog)
    (hasBases : catalog.HasBases)
    (path : Relation.ReflTransGen (source.Calls catalog) ⟨symbol, operation⟩ reached)
    (cycle : Relation.TransGen (source.Calls catalog) reached reached) :
    ∃ error after, declaration source id before = .error error after := by
  unfold EStateM.left at grown
  cases ran : declaration source id before with
  | error error after => exact ⟨error, after, rfl⟩
  | ok function after =>
    simp only [ran] at grown
    obtain ⟨_, _, isSame, compiles⟩ := declaration_ok ran
    cases isBody.symm.trans isSame
    have inside : source.CompilesInside catalog [] ⟨symbol, operation⟩ :=
      ⟨_, before, function, after, compiles, grown⟩
    exact absurd cycle (inside.acyclic hasBases path)

end Make

/-- Compilations end, and recursion is never unrolled.  The bounds on nested
compilations and on walks along bases make no difference.  In what a declaration
compiles to, no declared method is compiled inside itself, there are no more
methods inside each other than declared ones and the root, and a call of the body
at hand is an instruction of its own.  A declaration from which a cycle of other
calls is reached, also one through anonymous functions, does not compile. -/
theorem Make.recursion_never_unrolled {definitions : List TypeDefinition} {built : Catalog}
    (isBuilt : Catalog.build definitions = .ok built) (ends : ∀ hash, built.Ends hash)
    {before : Workspace} (asked : built.Asked before.catalog) {source : Source}
    (stored : source.IsStored) (id : SyntaxId) :
    (∀ levels, source.methods.size + 1 ≤ levels -> ∀ active symbol operation,
      nested source levels active symbol operation
          = entering (callee source levels) active symbol operation
        ∧ nested source levels active symbol operation
          = nested source (source.methods.size + 1) active symbol operation)
    ∧ (∀ later, before.catalog.Asked later -> ∀ hash,
      ∃ chain, later.Chain hash chain ∧ later.hierarchy hash = chain)
    ∧ before.catalog.Asked (EStateM.left (declaration source id) before).catalog
    ∧ ∀ symbol operation, source.body? id = some (symbol, operation) ->
      (∀ function after, declaration source id before = .ok function after ->
        ∃ site : Site, site.Enters [] symbol operation
          ∧ source.Makes (fun site method => site.active.Nodup
              ∧ site.active.length ≤ source.methods.size + 1
              ∧ ∀ later, after.catalog.Asked later ->
                method.MakesCalls later site.symbol.id site.operation
                  (source.CompilesTo site.active))
            site function.method)
      ∧ ∀ later, (EStateM.left (declaration source id) before).catalog.Asked later ->
        ∀ reached,
          Relation.ReflTransGen (source.Calls later) ⟨symbol, operation⟩ reached ->
          Relation.TransGen (source.Calls later) reached reached ->
            ∃ error after,
              declaration source id before = .error error after := by
  have hasBases {later : Catalog} (askedLater : before.catalog.Asked later) : later.HasBases :=
    (Catalog.hasBases_build isBuilt).asked (asked.trans askedLater)
  have leaves := onlyAsks_declaration source id before
  refine ⟨?_, ?_, leaves, ?_⟩
  · intro levels enough active symbol operation
    exact ⟨nested_eq_entering stored enough active symbol operation,
      nested_eq_of_le stored enough active symbol operation⟩
  · intro later askedLater hash
    obtain ⟨chain, isChain⟩ :=
      (Catalog.hasBases_build isBuilt).ends_asked ends (asked.trans askedLater) hash
    exact ⟨chain, isChain, (hasBases askedLater).hierarchy_eq isChain⟩
  · intro symbol operation isBody
    refine ⟨?_, ?_⟩
    · intro function after compiles
      obtain ⟨site, enters, makes⟩ := makes_stacks stored isBody compiles
      refine ⟨site, enters, makes.mono ?_⟩
      intro site method holds
      refine ⟨holds.1.distinct, holds.1.length_le, fun later askedLater => ?_⟩
      exact holds.2 later askedLater.grows
        (hasBases ((asked_declaration compiles).trans askedLater))
    · intro later askedLater reached path cycle
      exact fails_of_cycle isBody askedLater.grows (hasBases (leaves.trans askedLater)) path cycle

/-- Methods that are declared in any order are stored under their own identities. -/
theorem Source.isStored_ofDeclarations (symbolCount : Nat) (declarations : List Declaration) :
    (ofDeclarations symbolCount declarations).IsStored := by
  have folded (source : Source) (stored : source.IsStored) :
      (declarations.foldl add source).IsStored := by
    induction declarations generalizing source with
    | nil => exact stored
    | cons head _ ih => exact ih _ (stored.add head)
  refine folded _ fun id declaration found => ?_
  cases Std.HashMap.getElem?_empty.symm.trans found

namespace Duo

def symbol (number : Nat) : MethodSymbol :=
  { id := ⟨number⟩, name := "Duo", containingType := .parameter "T" }

def call (number : Nat) : Operation := .invocation {} none (symbol number) []

/-- Two methods call each other, another one calls the last, and that calls itself. -/
def called : Nat -> Nat
  | 0 => 1
  | 1 => 0
  | _ => 3

def method (number : Nat) : MethodDeclaration := ⟨symbol number, call (called number)⟩

def declarations : List Declaration :=
  [.method (method 0), .method (method 1), .expression (call 0), .method (method 2),
    .method (method 3)]

def source : Source := .ofDeclarations 4 declarations

variable {number : Nat}

theorem methodBody?_symbol (declared : number < 4) :
    source.methodBody? (symbol number) = some (method number) := by
  have member : Declaration.method (method number) ∈ declarations := by
    obtain rfl | rfl | rfl | rfl : number = 0 ∨ number = 1 ∨ number = 2 ∨ number = 3 := by omega
    all_goals simp [declarations]
  have distinct : ((declarations.filterMap Declaration.method?).map (·.symbol.id)).Nodup := by
    decide
  exact Source.found_of_distinct distinct member _

theorem callee_symbol (declared : number < 4) (levels : Nat)
    (active : List SymbolId) : Make.callee source levels active (symbol number) = do
      let function ← Make.nested source levels active (symbol number) (call (called number))
      return function.method := by
  unfold Make.callee
  rw [methodBody?_symbol declared]
  rfl

section

variable {number : Nat} (callsOther : number < 3) {callee : MethodSymbol -> Make CompiledMethod}
  {sessions units : Nat} {after : Workspace}

include callsOther

/-- What the called method comes to is all that matters for the code of a call. -/
theorem method_call (session : Session) (calls : callee (symbol (called number)) before = outcome) :
    Make.method ⟨session, callee⟩ (symbol number) false (call (called number)) before
      = Make.method ⟨session, fun _ _ => outcome⟩ (symbol number) false (call (called number))
        before := by
  subst calls
  obtain rfl | rfl | rfl : number = 0 ∨ number = 1 ∨ number = 2 := by omega
  all_goals rfl

theorem topLevel_error
    (fails : callee (symbol (called number)) ⟨Spin.registry, ⟨sessions + 1, units + 1⟩⟩
      = .error error after) :
    Make.topLevel callee (symbol number) (call (called number)) ⟨Spin.registry, ⟨sessions, units⟩⟩
      = .error error after := by
  change (Make.functionType (symbol number) >>= _) _ = _
  rw [bind_of_ok (Spin.functionType_plain Spin.getElem?_types_proc rfl rfl _)]
  change (Make.method ⟨_, callee⟩ (symbol number) false (call (called number)) >>= _) ⟨_, _⟩ = _
  refine bind_of_error ((method_call callsOther _ fails).trans ?_)
  obtain rfl | rfl | rfl : number = 0 ∨ number = 1 ∨ number = 2 := by omega
  all_goals rfl

theorem topLevel_ok
    (runs : callee (symbol (called number)) ⟨Spin.registry, ⟨sessions + 1, units + 1⟩⟩
      = .ok made after) : ∃ function,
    Make.topLevel callee (symbol number) (call (called number)) ⟨Spin.registry, ⟨sessions, units⟩⟩
      = .ok function after := by
  change ∃ function, (Make.functionType (symbol number) >>= _) _ = .ok function after
  rw [bind_of_ok (Spin.functionType_plain Spin.getElem?_types_proc rfl rfl _)]
  change ∃ function,
    (Make.method ⟨_, callee⟩ (symbol number) false (call (called number)) >>= _) ⟨_, _⟩
      = .ok function after
  obtain rfl | rfl | rfl : number = 0 ∨ number = 1 ∨ number = 2 := by omega
  all_goals
    rw [bind_of_ok ((method_call callsOther _ runs).trans rfl)]
    exact ⟨_, rfl⟩

end

/-- The first method is reached again from the second. -/
theorem declaration_error : ∃ error, Make.declaration source ⟨1⟩ { catalog := Spin.registry }
      = .error error ⟨Spin.registry, ⟨2, 2⟩⟩ := by
  have again : ∃ error,
      Make.callee source source.methods.size [⟨1⟩, ⟨0⟩] (symbol 0) ⟨Spin.registry, ⟨2, 2⟩⟩
        = .error error ⟨Spin.registry, ⟨2, 2⟩⟩ := by
    have isActive : (symbol 0).id ∈ [⟨1⟩, ⟨0⟩] := .tail _ (.head _)
    rw [callee_symbol (by omega), Make.nested_of_active isActive]
    exact ⟨_, rfl⟩
  obtain ⟨error, fails⟩ := again
  have second : Make.callee source (source.methods.size + 1) [⟨0⟩] (symbol 1)
      ⟨Spin.registry, ⟨1, 1⟩⟩ = .error error ⟨Spin.registry, ⟨2, 2⟩⟩ := by
    rw [callee_symbol (by omega)]
    exact bind_of_error (topLevel_error (by omega) fails)
  exact ⟨error, topLevel_error (by omega) second⟩

/-- A method that calls itself is compiled inside another one. -/
theorem declaration_ok : ∃ function, Make.declaration source ⟨4⟩ { catalog := Spin.registry }
      = .ok function ⟨Spin.registry, ⟨2, 2⟩⟩ := by
  have last : ∃ function,
      Make.nested source (source.methods.size + 1) [⟨2⟩] (symbol 3) (call 3)
        ⟨Spin.registry, ⟨1, 1⟩⟩ = .ok function ⟨Spin.registry, ⟨2, 2⟩⟩ := by
    change ∃ function, (Make.functionType (symbol 3) >>= _) _ = .ok function _
    rw [bind_of_ok (Spin.functionType_plain Spin.getElem?_types_proc rfl rfl _)]
    exact ⟨_, rfl⟩
  obtain ⟨function, compiles⟩ := last
  have made : Make.callee source (source.methods.size + 1) [⟨2⟩] (symbol 3)
      ⟨Spin.registry, ⟨1, 1⟩⟩ = .ok function.method ⟨Spin.registry, ⟨2, 2⟩⟩ := by
    rw [callee_symbol (by omega)]
    exact bind_of_ok compiles
  exact topLevel_ok (by omega) made

theorem calls (callsOther : number < 3) :
    source.Calls Spin.registry (method number) (method (called number)) := by
  have isDeclared : source.methodBody? (symbol (called number)) = some (method (called number)) := by
    refine methodBody?_symbol ?_
    obtain rfl | rfl | rfl : number = 0 ∨ number = 1 ∨ number = 2 := by omega
    all_goals decide
  refine ⟨symbol number, call (called number), symbol (called number), .own, ?_, isDeclared⟩
  refine ⟨{}, none, [], ?_, rfl, ?_⟩
  · exact Operation.evaluated_single _ ▸ .head _
  · obtain rfl | rfl | rfl : number = 0 ∨ number = 1 ∨ number = 2 := by omega
    all_goals decide

end Duo

/-- A call of a method with the identity of an expression is compiled as a call of
the expression itself, although the method and another one call each other. -/
theorem mutual_calls_compile : Duo.source.IsStored
    ∧ Duo.source.body? ⟨3⟩ = some (Make.expressionSymbol (Duo.call 0), Duo.call 0)
    ∧ Duo.source.methodBody? (Duo.symbol 0) = some (Duo.method 0)
    ∧ Duo.source.Calls Spin.registry (Duo.method 0) (Duo.method 1)
    ∧ Duo.source.Calls Spin.registry (Duo.method 1) (Duo.method 0)
    ∧ ∃ function after,
      Make.declaration Duo.source ⟨3⟩ { catalog := Spin.registry } = .ok function after := by
  refine ⟨Source.isStored_ofDeclarations _ _, rfl, Duo.methodBody?_symbol (by omega),
    Duo.calls (by omega), Duo.calls (by omega), ?_⟩
  change ∃ function after,
    (Make.functionType (Make.expressionSymbol (Duo.call 0)) >>= _) { catalog := Spin.registry }
      = .ok function after
  rw [EStateM.bind_of_ok (Spin.functionType_plain Spin.getElem?_types_proc rfl rfl {})]
  exact ⟨_, _, rfl⟩

theorem Spin.ends_registry (hash : TypeHash) : registry.Ends hash := by
  have hasBases := Catalog.hasBases_build isBuilt_registry
  refine (Catalog.ends_iff_acyclic hasBases (Catalog.holds_build isBuilt_registry).types).mpr ?_ hash
  intro hash cycle
  obtain ⟨_, ⟨definition, _, isDefinition, isBase, _⟩, _⟩ := Relation.TransGen.head'_iff.mp cycle
  rcases List.mem_append.mp (TypeDefinition.mem_of_registered? isDefinition) with system | own
  · cases (Catalog.base_of_system system).symm.trans isBase
  · cases own

/-- Of the methods that call each other none compiles; one that calls itself does,
also inside another. -/
theorem mutual_calls_fail : Duo.source.IsStored ∧ Catalog.build [] = .ok Spin.registry
    ∧ (∀ hash, Spin.registry.Ends hash)
    ∧ (∃ error after,
      Make.declaration Duo.source ⟨1⟩ { catalog := Spin.registry } = .error error after)
    ∧ ∃ function after, ∃ site : Site,
      Make.declaration Duo.source ⟨4⟩ { catalog := Spin.registry } = .ok function after
        ∧ site.Enters [] (Duo.symbol 2) (Duo.call 3)
        ∧ Duo.source.Makes (fun site method => site.active.Nodup
            ∧ site.active.length ≤ Duo.source.methods.size + 1
            ∧ method.MakesCalls Spin.registry site.symbol.id site.operation
              (Duo.source.CompilesTo site.active))
          site function.method := by
  have stored : Duo.source.IsStored := Source.isStored_ofDeclarations _ _
  have holds := @Make.recursion_never_unrolled _ _ Spin.isBuilt_registry Spin.ends_registry
    { catalog := Spin.registry } .nothing _ stored
  refine ⟨stored, Spin.isBuilt_registry, Spin.ends_registry, ?_, ?_⟩
  · have there : Duo.source.Calls Spin.registry (Duo.method 0) (Duo.method 1) :=
      Duo.calls (by omega)
    have back : Duo.source.Calls Spin.registry (Duo.method 1) (Duo.method 0) :=
      Duo.calls (by omega)
    obtain ⟨_, _, _, bodies⟩ := holds ⟨1⟩
    refine (bodies _ _ rfl).2 Spin.registry ?_ (Duo.method 0) .refl (.tail (.single there) back)
    obtain ⟨_, fails⟩ := Duo.declaration_error
    rw [EStateM.left, fails]
    exact .nothing
  · obtain ⟨function, compiles⟩ := Duo.declaration_ok
    obtain ⟨_, _, _, bodies⟩ := holds ⟨4⟩
    obtain ⟨site, enters, makes⟩ := (bodies _ _ rfl).1 function _ compiles
    refine ⟨function, _, site, compiles, enters, makes.mono ?_⟩
    rintro _ _ ⟨distinct, bounded, calls⟩
    exact ⟨distinct, bounded, calls Spin.registry .nothing⟩

end OpMachine
