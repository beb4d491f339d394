import OpMachine.Proofs.ScalarMethods

namespace OpMachine

/-!
# Programs of methods that call each other

A reference interpreter for the declared methods of a source finds a called
method by the identity of its symbol, with no code and no copies.  A compiled
program holds a copy of the callee for every call, and a special instruction for
a method that calls itself.  Both give the same results, and both stop at the
same depth of calls.
-/

/-! ## The reference interpreter -/

namespace Source

/-- The source of declarations in order, after some symbols were handed out. -/
def ofDeclarations (symbolCount : Nat) (declarations : List Declaration) : Source :=
  declarations.foldl add { symbolCount }

/-- The result of a call of a declared method.  At most a number of activations
may still begin; the number that there may be in all is only reported.  The
activation is counted before the arguments are. -/
def interpret (source : Source) (catalog : Catalog) (limit rounds : Nat) :
    Nat -> MethodSymbol -> List Value -> Except Halt Value
  | 0, _, _ => .error (.failed (.callDepthExceeded limit))
  | remaining + 1, symbol, arguments =>
    match source.methodBody? symbol with
    | none => .error .outside
    | some declaration =>
      let count := declaration.symbol.parameters.length
      if arguments.length = count then
        (declaration.symbol.evaluator catalog rounds
          (interpret source catalog limit rounds remaining)).result declaration.body arguments
      else
        .error (.failed (.typeMismatch
          (toString count ++ " argument(s) for '" ++ declaration.symbol.name ++ "'")
          (toString arguments.length)))

/-- The result of a function that was made of a declared method, called from
outside with a limit on the activations.  The arguments are first counted
against the signature of the function. -/
def invoke (source : Source) (catalog : Catalog) (limit rounds arity : Nat)
    (symbol : MethodSymbol) (arguments : List Value) : Except Halt Value :=
  if arguments.length = arity then source.interpret catalog limit rounds limit symbol arguments
  else
    .error (.failed (.typeMismatch (toString arity ++ " argument(s)") (toString arguments.length)))

/-- A call of a declared method: its symbol is the declared one, and its type is
none of the catalog. -/
def IsCallable (source : Source) (catalog : Catalog) (method : MethodSymbol) : Prop :=
  catalog.denoted? method.containingType = none
    ∧ ∃ declaration, source.methodBody? method = some declaration ∧ declaration.symbol = method

end Source

/-! ## Instructions that call -/

open Machine (callFunction callMethod calling refuse step)

/-- An instruction that calls something follows the result of the call. -/
theorem Situation.simulates_call {situation : Situation}
    (executes : ∀ (frame : Frame) (rest : List Value) (heap : Heap),
      frame.method = situation.method -> frame.operands = taken ++ rest -> frame.At code ->
        Execute.instruction situation.host.catalog ⟨frame, heap⟩ = .ok (.call callee keep)
          ⟨frame.past code.size rest, heap⟩)
    (gives : ∀ waiting heap, callee.Gives situation.host rounds waiting situation.depth heap
      result) :
    situation.Simulates rounds taken code (Perform.called result) Shared
      (Passage.keeping keep) := by
  intro frame rest world isMethod operands placed held
  let after : Frame := frame.past code.size rest
  let calling : Machine := ⟨.call callee, .frame after keep :: situation.waiting, situation.depth,
    world.heap⟩
  have steps : (situation.running world.heap frame).step situation.host = .running calling := by
    simp only [running, step, Machine.instruction,
      executes frame rest world.heap isMethod operands placed]
    rfl
  have given := gives (.frame after keep :: situation.waiting) world.heap
  cases result with
  | ok value =>
    have handed : step situation.host
        ⟨.give (.ok value), .frame after keep :: situation.waiting, situation.depth, world.heap⟩
        = .running (situation.running world.heap
          (if keep then { after with operands := value :: after.operands } else after)) := rfl
    refine .reached ((Machine.Reaches.single steps).trans (given.2.trans (.single handed)))
      (.here ⟨given.1, _, rfl, ?_⟩)
    cases keep with
    | true | false => exact ⟨⟨rfl, rfl, rfl, fun _ _ => rfl⟩, { held with }⟩
  | error halt =>
    cases halt with
    | failed => exact (Machine.Reaches.single steps).trans (given.trans (.single rfl))
    | unfinished => exact (Machine.Reaches.single steps).unfinished given
    | outside => exact given

/-! ## Compiled copies of declared methods -/

open Catalog

theorem Catalog.SameRegistered.denoted? {before after : Catalog}
    (same : before.SameRegistered after) : after.denoted? = before.denoted? :=
  funext fun descriptor => (regular_resolve descriptor).stable before after same

/-- What a call of a declared method is compiled to: a call of the method under
compilation, or of a copy that was compiled for this call. -/
theorem Compile.Obtains.declared {origin : Catalog} (found : Obtains outer origin depth finished
      (callTarget outer hasReceiver method count) target)
    (foreign : origin.denoted? method.containingType = none) :
    target = .self ∧ method.id = finished.slots.owner
      ∨ ∃ callee, ∃ index : UInt8, ∃ before after,
        target = .declared index ∧ finished.callees[index.toNat]? = some callee
          ∧ outer.callee method before = .ok callee after ∧ origin.Grows before.catalog
          ∧ after.catalog.Grows finished.workspace.catalog ∧ method.id ≠ finished.slots.owner := by
  obtain ⟨before, _, sound, _, runs, _, extended, extending⟩ := found.run
  obtain ⟨middle, isMiddle, isHost | ⟨_, isDeclared⟩⟩ := callTarget_ok runs
  · obtain ⟨owner, _, resolved, _⟩ := isHost
    have denotes : before.workspace.catalog.denoted? method.containingType = some owner := resolved
    rw [sound.origin.toSameRegistered.denoted?, foreign] at denotes
    cases denotes
  · have sameOwner : middle.slots.owner = finished.slots.owner := by
      rw [isMiddle, extending.owner, extended.owner]
    obtain ⟨_, _, _, isSelf | isCopy⟩ := declaredMethod_ok isDeclared
    · obtain ⟨rfl, isOwner, _⟩ := isSelf
      exact .inl ⟨rfl, isOwner.trans sameOwner⟩
    · obtain ⟨callee, index, workspace, notOwner, compiles, rfl, rfl, stored⟩ := isCopy
      refine .inr ⟨callee, index, middle.workspace, workspace, rfl,
        extending.callees _ _ stored, compiles, ?_, extending.catalog, sameOwner ▸ notOwner⟩
      rw [isMiddle]
      exact sound.origin.trans ((Catalog.regular_resolve method.containingType).closes.extends _)

/-- A compiled copy of a declared method.  Copies are made at any time while the
catalog has the same registered types. -/
def Source.Copies (source : Source) (catalog : Catalog) (declaration : MethodDeclaration)
    (method : CompiledMethod) : Prop :=
  source.methodBody? declaration.symbol = some declaration
    ∧ ∃ levels active before after function, catalog.SameRegistered before.catalog
        ∧ Make.nested source levels active declaration.symbol declaration.body before
          = .ok function after
        ∧ function.method = method

theorem Source.Copies.encodes {source : Source} (copies : source.Copies catalog declaration method) :
    method.hasReceiver = false ∧ ∃ session levels active origin finished code,
        catalog.SameRegistered origin
          ∧ method.Encodes ⟨session, Make.callee source levels active⟩ origin declaration.symbol
            declaration.body finished code := by
  obtain ⟨_, _, _, _, _, _, same, compiles, rfl⟩ := copies
  obtain ⟨fewer, opened⟩ := Make.nested_ok compiles
  obtain ⟨_, session, _, started, _, preparing, _, starting, compiling, _⟩ :=
    Make.topLevel_ok (Make.grows_callee source fewer _) opened
  obtain ⟨noReceiver, finished, code, encodes, _⟩ :=
    Make.method_ok (Make.conservative_callee source fewer _ session) compiling
  exact ⟨noReceiver, session, fewer, _, started.catalog, finished, code,
    same.trans (preparing.trans starting).toSameRegistered, encodes⟩

/-! ## Calls of copies -/

section

variable {source : Source} {catalog : Catalog} {host : Host} {rounds remaining : Nat}
  {declaration : MethodDeclaration}

theorem Source.IsCallable.symbol_eq (callable : source.IsCallable catalog method)
    (found : source.methodBody? method = some declaration) : declaration.symbol = method := by
  obtain ⟨_, _, isOther, isMethod⟩ := callable
  obtain rfl := Option.some.inj (found.symm.trans isOther)
  exact isMethod

/-- What is known of all copies when a number of activations may still begin. -/
def Source.Answers (source : Source) (catalog : Catalog) (host : Host) (rounds remaining : Nat) :
    Prop :=
  ∀ (declaration : MethodDeclaration) (method : CompiledMethod),
    source.Copies catalog declaration method ->
      ∀ (waiting : List Activation) (depth : Nat) (heap : Heap) (arguments : List Value),
        remaining = host.maximumDepth - depth ->
          (∀ value, value ∈ arguments -> value.isShared = true) ->
            (Callee.method method none arguments).Gives host rounds waiting depth heap
              (source.interpret catalog host.maximumDepth rounds remaining declaration.symbol
                arguments)

/-- The code of a body understands calls of declared methods once all copies
answer with one activation less. -/
theorem Source.Answers.understands (answers : source.Answers catalog host rounds remaining)
    (copies : source.Copies catalog declaration method) (waiting : List Activation) (heap : Heap)
    (left : remaining = host.maximumDepth - (depth + 1)) {origin : Catalog}
    (same : catalog.SameRegistered origin)
    (encodes : method.Encodes ⟨session, Make.callee source levels active⟩ origin
      declaration.symbol declaration.body finished code) :
    Situation.Understands ⟨host, waiting, depth + 1, heap, method, finished.slots⟩
      ⟨session, Make.callee source levels active⟩ origin finished (source.IsCallable catalog)
      (declaration.symbol.evaluator catalog rounds
        (source.interpret catalog host.maximumDepth rounds remaining)) where
  pool := encodes.pool
  table := rfl
  separate := encodes.separate
  typeOf := same.denoted?.symm
  calls := by
    intro called initializers count target call values callable found _ calls few isCount shared
    have counted : count.toUInt8.toNat = values.length := (Nat.mod_eq_of_lt few).trans isCount.symm
    rcases found.declared (same.denoted?.symm ▸ callable.1) with
      ⟨rfl, isOwner⟩ | ⟨callee, index, before, after, rfl, stored, compiles, grown, _⟩
    · -- The method calls itself: its symbol has the identity of the owner.
      have sameId : called.id = declaration.symbol.id := isOwner.trans encodes.owner
      have isSelf : declaration.symbol = called := by
        refine callable.symbol_eq ?_
        rw [methodBody?, sameId]
        exact copies.1
      subst isSelf
      cases calls with
      | self =>
        rw [← encodes.returnsValue]
        refine Situation.simulates_call ?_ fun others later =>
          answers declaration method copies others (depth + 1) later values left shared
        intro frame rest later isMethod operands placed
        have isCompiled : frame.method = method := isMethod
        have executes : Execute.instruction host.catalog ⟨frame, later⟩ = _ :=
          Execute.instruction_callSelf placed.single counted operands
        refine executes.trans ?_
        rw [isCompiled, copies.encodes.1]
        rfl
    · obtain ⟨other, function, isDeclared, nested, rfl⟩ := Make.callee_ok compiles
      have isCalled := callable.symbol_eq isDeclared
      have copied : source.Copies catalog other function.method := by
        refine ⟨?_, levels, active, before, after, function, ?_, nested, rfl⟩
        · rw [isCalled]
          exact isDeclared
        · exact same.trans grown.toSameRegistered
      obtain ⟨_, _, _, _, _, _, _, _, otherEncodes⟩ := copied.encodes
      subst isCalled
      cases calls with
      | declared =>
        rw [← otherEncodes.returnsValue]
        refine Situation.simulates_call ?_ fun others later =>
          answers other function.method copied others (depth + 1) later values left shared
        intro frame rest later isMethod operands placed
        refine Execute.instruction_callUnit placed.single ?_ counted operands
        rw [isMethod, encodes.callees]
        exact stored

theorem Source.answers (scalar : ∀ declaration : MethodDeclaration,
      source.methodBody? declaration.symbol = some declaration ->
        declaration.body.IsScalarStatement declaration.symbol.parameters.length
          (source.IsCallable catalog))
    (remaining : Nat) : source.Answers catalog host rounds remaining := by
  induction remaining with
  | zero =>
    intro declaration method copies waiting depth heap arguments left shared
    refine .single ?_
    have deep : host.maximumDepth ≤ depth := Nat.le_of_sub_eq_zero left.symm
    simp only [step, callMethod, if_pos deep, refuse]
  | succ remaining ih =>
    intro declaration method copies waiting depth heap arguments left shared
    have shallow : depth < host.maximumDepth := by omega
    obtain ⟨_, _, _, _, _, _, _, same, encodes⟩ := copies.encodes
    simp only [interpret, copies.1]
    split
    · rename_i count
      have leftInside : remaining = host.maximumDepth - (depth + 1) := by omega
      have understands :=
        ih.understands copies waiting heap leftInside same encodes
      exact encodes.gives_shared understands rfl (scalar declaration copies.1) shallow none count
        shared
    · rename_i count
      refine .single ?_
      simp only [step, callMethod, if_neg (Nat.not_le.mpr shallow), Frame.enter,
        encodes.parameterCount, encodes.name, if_neg count, refuse]

end

/-! ## Sources of distinct methods -/

def Declaration.method? : Declaration -> Option MethodDeclaration
  | .method declaration => some declaration
  | _ => none

open Declaration (method method?)

namespace Source

theorem declarations_foldl (declarations : List Declaration) (start : Source) :
    (declarations.foldl add start).declarations = start.declarations ++ declarations.toArray := by
  induction declarations generalizing start with
  | nil => exact Array.append_empty.symm
  | cons head _ ih =>
    have pushed : (start.add head).declarations = start.declarations.push head := by
      cases head <;> rfl
    rw [List.foldl_cons, ih, pushed]
    simp

variable {declarations : List Declaration} {id : SymbolId} {declaration : MethodDeclaration}

theorem mem_of_foldl (found : (declarations.foldl add start).methods[id]? = some declaration) :
    start.methods[id]? = some declaration ∨ method declaration ∈ declarations := by
  induction declarations generalizing start with
  | nil => exact .inl found
  | cons head _ ih =>
    rcases ih found with earlier | later
    · cases head with
      | method other =>
        change (start.methods.insert other.symbol.id other)[id]? = _ at earlier
        rcases inserted_or_found earlier with ⟨_, rfl⟩ | earlier
        · exact .inr (.head _)
        · exact .inl earlier
      | _ => exact .inl earlier
    · exact .inr (.tail _ later)

theorem methods_foldl_of_absent (absent : ∀ declaration, method declaration ∈ declarations ->
      declaration.symbol.id ≠ id) (start : Source) :
    (declarations.foldl add start).methods[id]? = start.methods[id]? := by
  induction declarations generalizing start with
  | nil => rfl
  | cons head _ ih =>
    rw [List.foldl_cons, ih fun declaration member =>
      absent declaration (.tail _ member)]
    cases head with
    | method other =>
      change (start.methods.insert other.symbol.id other)[id]? = _
      rw [Std.HashMap.getElem?_insert, if_neg]
      exact fun same => absent other (.head _) (eq_of_beq same)
    | _ => rfl

theorem found_of_distinct (distinct : ((declarations.filterMap method?).map (·.symbol.id)).Nodup)
    (member : method declaration ∈ declarations) (start : Source) :
    (declarations.foldl add start).methods[declaration.symbol.id]? = some declaration := by
  induction declarations generalizing start with
  | nil => cases member
  | cons head tail ih =>
    have inTail (other : MethodDeclaration) (isIn : method other ∈ tail) :
        other.symbol.id ∈ (tail.filterMap method?).map (·.symbol.id) :=
      List.mem_map_of_mem (List.mem_filterMap.mpr ⟨_, isIn, rfl⟩)
    rcases List.mem_cons.mp member with rfl | later
    · have fresh : declaration.symbol.id ∉ (tail.filterMap method?).map (·.symbol.id) :=
        (List.nodup_cons.mp distinct).1
      rw [List.foldl_cons, methods_foldl_of_absent]
      · exact Std.HashMap.getElem?_insert_self
      · exact fun other isIn same => fresh (same ▸ inTail other isIn)
    · refine ih ?_ later _
      cases head with
      | method => exact (List.nodup_cons.mp distinct).2
      | _ => exact distinct

theorem mem_of_declaration? {symbolCount : Nat} {id : SyntaxId} {declaration : Declaration}
    (found : (ofDeclarations symbolCount declarations).declaration? id = some declaration) :
    declaration ∈ declarations := by
  unfold declaration? ofDeclarations at found
  rw [declarations_foldl] at found
  split at found
  · cases found
  · have member := Array.mem_of_getElem? found
    simpa using member

end Source

/-! ## Whole programs -/

theorem Machine.ends_congr {first second : Machine} (same : first.step host = second.step host)
    (ending : Ending) : first.Ends host ending ↔ second.Ends host ending := by
  refine exists_congr fun steps => ?_
  cases steps with
  | zero => exact Iff.rfl
  | succ => rw [run, run, same]

variable {root : MethodDeclaration} {function : CompiledFunction}

theorem Source.copies_of_declaration {source : Source} {id : SyntaxId}
    (isRoot : source.declaration? id = some (.method root))
    (found : source.methodBody? root.symbol = some root)
    (compiles : Make.declaration source id before = .ok function after) :
    source.Copies before.catalog root function.method := by
  unfold Make.declaration at compiles
  rw [isRoot] at compiles
  change Make.declaredMethod source root before = _ at compiles
  unfold Make.declaredMethod at compiles
  cases static : root.symbol.isStatic with
  | false =>
    rw [static] at compiles
    cases compiles
  | true =>
    rw [static] at compiles
    exact ⟨found, _, _, before, after, function, .refl _, compiles, rfl⟩

/-- A function that is called from outside gives what its method gives. -/
theorem Source.ends_iff_of_copies {source : Source}
    (scalar : ∀ declaration : MethodDeclaration,
      source.methodBody? declaration.symbol = some declaration ->
        declaration.body.IsScalarStatement declaration.symbol.parameters.length
          (source.IsCallable catalog)) (copies : source.Copies catalog root function.method)
    (host : Host) (scalars : ∀ value, value ∈ arguments -> value.isScalar = true) (heap : Heap)
    (isFunction : heap.function ref = function.cell) (ending : Ending) :
    Machine.Ends host (.calling ref arguments heap) ending ↔ ending.heap = heap ∧
      ∃ rounds, source.invoke catalog host.maximumDepth rounds function.signature.arity
        root.symbol arguments = ending.result.mapError Halt.failed := by
  by_cases count : arguments.length = function.signature.arity
  · have sameStep : (calling ref arguments heap).step host
        = step host ⟨.call (.method function.method none arguments), [], 0, heap⟩ := by
      simp only [calling, step, callFunction, isFunction,
        CompiledFunction.cell, count, ne_eq, not_true_eq_false, if_false]
    rw [Machine.ends_congr sameStep]
    refine Callee.Gives.ends_iff (fun rounds => ?_) ending
    rw [invoke, if_pos count]
    exact answers scalar host.maximumDepth root function.method copies [] 0 heap arguments rfl
      fun value member => Value.isShared_of_isScalar (scalars value member)
  · refine Callee.Gives.ends_iff (fun rounds => ?_) ending
    rw [invoke, if_neg count]
    refine .single ?_
    simp only [step, callFunction, isFunction, CompiledFunction.cell, ne_eq, count,
      not_false_eq_true, if_true, refuse]

/-- A program that compiles runs as its source is interpreted.  The function
made of any declared method, called with any scalars and under any limit on the
depth of calls, ends with a value or a failure exactly when the reference
interpreter has this value or this failure for some number of rounds. -/
theorem Make.declaration_ends_iff {symbolCount : Nat} {declarations : List Declaration}
    (distinct : ((declarations.filterMap Declaration.method?).map (·.symbol.id)).Nodup)
    {before after : Workspace}
    (scalar : ∀ declaration, Declaration.method declaration ∈ declarations ->
      declaration.body.IsScalarStatement declaration.symbol.parameters.length
        ((Source.ofDeclarations symbolCount declarations).IsCallable before.catalog))
    {id : SyntaxId} {root : MethodDeclaration}
    (isRoot : (Source.ofDeclarations symbolCount declarations).declaration? id
      = some (.method root))
    {function : CompiledFunction}
    (compiles : Make.declaration (Source.ofDeclarations symbolCount declarations) id before
      = .ok function after)
    (host : Host) {arguments : List Value}
    (scalars : ∀ value, value ∈ arguments -> value.isScalar = true) (heap : Heap)
    (ending : Ending) :
    Machine.Ends host
        (.calling (heap.addFunction function.cell).1 arguments (heap.addFunction function.cell).2)
        ending
      ↔ ending.heap = (heap.addFunction function.cell).2 ∧ ∃ rounds,
        (Source.ofDeclarations symbolCount declarations).invoke before.catalog host.maximumDepth
            rounds function.signature.arity root.symbol arguments
          = ending.result.mapError Halt.failed := by
  have isMember : Declaration.method root ∈ declarations := Source.mem_of_declaration? isRoot
  have found : (Source.ofDeclarations symbolCount declarations).methodBody? root.symbol = some root :=
    Source.found_of_distinct distinct isMember _
  have isFunction : (heap.addFunction function.cell).2.function (heap.addFunction function.cell).1
      = function.cell := by
    simp [Heap.addFunction, Heap.function]
  refine Source.ends_iff_of_copies ?_ (Source.copies_of_declaration isRoot found compiles) host
    scalars _ isFunction ending
  intro declaration isDeclared
  rcases Source.mem_of_foldl isDeclared with atStart | isIn
  · cases (Std.HashMap.getElem?_empty.symm.trans atStart)
  · exact scalar declaration isIn

namespace Spin

def proc : TypeHash := .ofName (genericKey DelegateFamily.procName 0)

def procType : HostType := hostType (DelegateFamily.procDefinition 0) none

def catalog : Catalog := { types := ({} : Std.HashMap TypeHash HostType).insert proc procType }

def symbol : MethodSymbol := { id := ⟨1⟩, name := "Spin", containingType := .parameter "T" }

/-- `while (true) Spin();` -/
def body : Operation :=
  .whileLoop {} (.literal { type := some .bool, literal := some (.bool true) })
    (.expressionStatement {} (.invocation {} none symbol []))

def source : Source := .ofDeclarations 1 [.method ⟨symbol, body⟩]

theorem methodBody?_symbol : source.methodBody? symbol = some ⟨symbol, body⟩ :=
  Std.HashMap.getElem?_insert_self

private theorem functionType_eq (catalog : Catalog) (numbering : Numbering)
    {symbol : MethodSymbol} (noParameters : symbol.parameters = [])
    (noResult : symbol.returnType = .void) :
    Make.functionType symbol ⟨catalog, numbering⟩ =
      (match (catalog.lookup (delegateSignature proc)).1 with
      | none => throw (.unresolvedType symbol.signatureText)
      | some signature => return (proc, signature) : Make (TypeHash × Signature))
        ⟨(catalog.lookup (delegateSignature proc)).2, numbering⟩ := by
  rcases symbol with ⟨id, name, kind, containingType, parameters, returnType, _, _⟩
  cases noParameters
  cases noResult
  rfl

theorem functionType_plain {catalog : Catalog}
    (registered : catalog.types[proc]? = some procType) {symbol : MethodSymbol}
    (noParameters : symbol.parameters = []) (noResult : symbol.returnType = .void)
    (numbering : Numbering) : Make.functionType symbol ⟨catalog, numbering⟩
      = .ok (proc, ⟨[], none⟩) ⟨catalog, numbering⟩ := by
  have found : catalog.get? proc = some procType := by
    rw [get?, registered]
  have declaring : catalog.declaring? proc = some (procType, []) := by
    rw [declaring?, found]
    rfl
  have signature : catalog.lookup (delegateSignature proc) = (some ⟨[], none⟩, catalog) := by
    rw [delegateSignature, Lookup.lookup_get_bind, declaring]
    rfl
  rw [functionType_eq catalog numbering noParameters noResult, signature]
  rfl

theorem functionType_symbol (numbering : Numbering) : Make.functionType symbol ⟨catalog, numbering⟩
      = .ok (proc, ⟨[], none⟩) ⟨catalog, numbering⟩ :=
  functionType_plain Std.HashMap.getElem?_insert_self rfl rfl numbering

theorem interpret_symbol (limit remaining : Nat) :
    source.interpret catalog limit 1 remaining symbol []
      = .error (.failed (.callDepthExceeded limit)) := by
  induction remaining with
  | zero => rfl
  | succ remaining ih =>
    let evaluator := symbol.evaluator catalog 1 (source.interpret catalog limit 1 remaining)
    have fails : Evaluate.called (evaluator.call symbol []) (.initial [])
        = .error (.failed (.callDepthExceeded limit)) (.initial []) := by
      change Evaluate.called (source.interpret catalog limit 1 remaining symbol []) _ = _
      rw [ih]
      rfl
    have calls : evaluator.statement
        (.expressionStatement {} (.invocation {} none symbol [])) (.initial []) = _ :=
      bind_of_error ((bind_of_ok rfl).trans fails)
    have loops : evaluator.statement body (.initial []) = _ :=
      (bind_of_ok rfl).trans (bind_of_error calls)
    have ends : evaluator.body body (.initial []) = _ := bind_of_error loops
    rw [Source.interpret, methodBody?_symbol]
    change evaluator.result body [] = _
    rw [Evaluator.result, ends]

end Spin

theorem spin_ends : ∃ function after,
    Make.declaration Spin.source ⟨1⟩ { catalog := Spin.catalog } = .ok function after
      ∧ Machine.Ends { catalog := Spin.catalog, maximumDepth := 3 }
          (.calling (({} : Heap).addFunction function.cell).1 []
            (({} : Heap).addFunction function.cell).2)
          ⟨.error (.callDepthExceeded 3), (({} : Heap).addFunction function.cell).2⟩ := by
  obtain ⟨function, after, compiles, noParameters⟩ : ∃ function after,
      Make.declaration Spin.source ⟨1⟩ { catalog := Spin.catalog } = .ok function after
        ∧ function.signature.arity = 0 := by
    change ∃ function after,
      (Make.functionType Spin.symbol >>= _) { catalog := Spin.catalog } = .ok function after ∧ _
    rw [EStateM.bind_of_ok (Spin.functionType_symbol {})]
    exact ⟨_, _, rfl, rfl⟩
  refine ⟨function, after, compiles, ?_⟩
  have callable : Spin.source.IsCallable Spin.catalog Spin.symbol :=
    ⟨rfl, _, Spin.methodBody?_symbol, rfl⟩
  have scalar (declaration : MethodDeclaration)
      (member : Declaration.method declaration ∈ [.method ⟨Spin.symbol, Spin.body⟩]) :
      declaration.body.IsScalarStatement declaration.symbol.parameters.length
        (Spin.source.IsCallable Spin.catalog) := by
    cases List.mem_singleton.mp member
    exact ⟨⟨rfl, rfl, rfl⟩, rfl, callable, trivial⟩
  refine (Make.declaration_ends_iff (by decide) scalar rfl compiles
    { catalog := Spin.catalog, maximumDepth := 3 } (by decide) {} _).mpr ⟨rfl, 1, ?_⟩
  rw [noParameters]
  exact Spin.interpret_symbol 3 3

end OpMachine
