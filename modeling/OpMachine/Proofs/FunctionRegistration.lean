import OpMachine.Proofs.CodeSafety

namespace OpMachine

/-!
# Registration of anonymous functions

Before a body is compiled, the anonymous functions in it are compiled and
registered in the session of the body, each of them once and the inner ones
first.  Whatever stands in the body, at any depth, is then registered: its code
is alone in a sealed unit with an instance and a cell for its function.  So the
code of a body always finds the functions that it loads.
-/

namespace Make

variable {callee : MethodSymbol -> Make CompiledMethod} {α : Type}

/-! ## The inner functions first -/

/-- A function compiled if the functions inside it are all registered.
Otherwise something else happens. -/
def lambdaInside (refused : Make Session) (callee : MethodSymbol -> Make CompiledMethod)
    (session : Session) (node : FunctionNode) : Make Session :=
  if ∀ inner, inner ∈ node.body.functions -> (session.lambda? inner.symbol.id).isSome = true then
    lambda callee session node
  else refused

/-- The same as `lambdas`, except that no function is compiled before the ones
inside it. -/
def lambdasInside (refused : Make Session) (callee : MethodSymbol -> Make CompiledMethod) :
    Session -> List FunctionNode -> Make (Session × Nat)
  | session, [] => return (session, 0)
  | session, node :: rest => do
      if (session.lambda? node.symbol.id).isSome then
        lambdasInside refused callee session rest
      else
        let session ← lambdaInside refused callee session node
        let (session, count) ← lambdasInside refused callee session rest
        return (session, count + 1)

theorem bind_congr_of_ok {β : Type} {first : Make α} {next other : α -> Make β}
    (same : ∀ before value after, first before = .ok value after -> next value = other value) :
    first >>= next = first >>= other := by
  funext before
  cases run : first before with
  | ok value after =>
    rw [bind_of_ok run, bind_of_ok run, same before value after run]
  | error => rw [bind_of_error run, bind_of_error run]

/-- The induction is on the functions still to come; those before them are
registered already. -/
private theorem lambdasInside_eq_of_innerFirst (refused : Make Session)
    {front nodes : List FunctionNode} (innerFirst : FunctionNode.InnerFirst (front ++ nodes))
    {session : Session}
    (isKnown : ∀ node, node ∈ front -> (session.lambda? node.symbol.id).isSome = true) :
    lambdasInside refused callee session nodes = lambdas callee session nodes := by
  induction nodes generalizing front session with
  | nil => rfl
  | cons node rest ih =>
    have restFirst : FunctionNode.InnerFirst ((front ++ [node]) ++ rest) := by
      rwa [List.append_assoc]
    rw [lambdasInside, lambdas]
    by_cases present : (session.lambda? node.symbol.id).isSome = true
    · rw [if_pos present, if_pos present]
      apply ih restFirst
      intro other member
      rcases List.mem_append.mp member with earlier | last
      · exact isKnown other earlier
      · exact List.mem_singleton.mp last ▸ present
    · have inside : lambdaInside refused callee session node = lambda callee session node :=
        if_pos fun inner member => isKnown inner (innerFirst front node rest rfl member)
      rw [if_neg present, if_neg present, inside]
      · apply bind_congr_of_ok
        intro before middle between compiles
        obtain ⟨_, registered⟩ := registered_of_lambda compiles
        have same : lambdasInside refused callee middle rest = lambdas callee middle rest := by
          apply ih restFirst
          intro other member
          rw [registered.lambda?_eq]
          split
          · rfl
          · rename_i different
            rcases List.mem_append.mp member with earlier | last
            · exact isKnown other earlier
            · exact absurd (congrArg (·.symbol.id) (List.mem_singleton.mp last).symm) different
        simp only [same]

/-- Whenever a function of a body is compiled, the functions inside it are
registered: it makes no difference what would happen otherwise. -/
theorem lambdasInside_eq (refused : Make Session) (session : Session) (operation : Operation) :
    lambdasInside refused callee session operation.functions
      = lambdas callee session operation.functions :=
  lambdasInside_eq_of_innerFirst refused (Operation.innerFirst_functions operation)
    fun _ member => absurd member List.not_mem_nil

/-! ## Code finds the functions that it loads -/

/-- A computation in a workspace that does not fail for want of a function. -/
abbrev IsOrdinary {α : Type} (action : Make α) : Prop :=
  EStateM.FailsWith CompilationError.IsOrdinary action

theorem asks_isOrdinary : Asks @IsOrdinary where
  pure := .pure
  bind := .bind
  throw := .throw
  lookup _ := .of_ok fun _ => ⟨_, _, rfl⟩

theorem isOrdinary_ofExcept {result : Except CompilationError α}
    (ordinary : ∀ error, result = .error error -> error.IsOrdinary) :
    (ofExcept result : Make α).IsOrdinary := by
  cases result with
  | ok value => exact .pure value
  | error error => exact .throw (ordinary error rfl)

end Make

theorem Session.isOrdinary_draft {α : Type} {session : Session} {change : UnitDraft -> α}
    (fails : (session.draft unit >>= fun draft => pure (change draft)) = .error error) :
    error.IsOrdinary := by
  unfold draft at fails
  split at fails
  · cases fails
    exact .invalidSymbol _ (by decide)
  · split at fails
    · cases fails
      exact .invalidSymbol _ (by decide)
    · cases fails

namespace SlotTable

variable {table : SlotTable} {error : CompilationError} {symbol : LocalSymbol}

theorem isOrdinary_parameterSlot {symbol : ParameterSymbol}
    (fails : table.parameterSlot symbol = .error error) : error.IsOrdinary := by
  unfold parameterSlot at fails
  generalize symbol.ordinal + (if table.hasReceiver = true then 1 else 0) = slot at fails
  split at fails
  · cases fails
    exact .unsupportedShape _
  · simp only at fails
    split at fails
    · cases fails
    · cases fails
      exact .unsupportedShape _

theorem isOrdinary_localSlot (fails : table.localSlot symbol = .error error) :
    error.IsOrdinary := by
  unfold localSlot at fails
  split at fails
  · cases fails
  · cases fails
    exact .unsupportedShape _

theorem isOrdinary_fresh (fails : table.fresh = .error error) : error.IsOrdinary := by
  unfold fresh at fails
  split at fails
  · cases fails
  · cases fails
    exact .unsupportedShape _

theorem isOrdinary_declare (fails : table.declare symbol = .error error) : error.IsOrdinary := by
  unfold declare at fails
  split at fails
  · cases fails
  · cases found : table.fresh with rw [found] at fails
    | ok => cases fails
    | error =>
      cases fails
      exact isOrdinary_fresh found

end SlotTable

open Make

namespace Compile

/-- A compilation that does not fail for want of a function. -/
abbrev IsOrdinary {α : Type} (action : Compile α) : Prop :=
  EStateM.FailsWith CompilationError.IsOrdinary action

variable {α : Type}

theorem isOrdinary_emit {action : Emit α} (ordinary : action.IsOrdinary) :
    (emit action).IsOrdinary := by
  intro before error after fails
  cases run : action before.emitter with simp only [emit, run] at fails
  | ok => cases fails
  | error =>
    cases fails
    exact ordinary _ _ _ run

theorem isOrdinary_make {action : Make α} (ordinary : action.IsOrdinary) :
    (make action).IsOrdinary := by
  intro before error after fails
  cases run : action before.workspace with simp only [make, run] at fails
  | ok => cases fails
  | error =>
    cases fails
    exact ordinary _ _ _ run

theorem isOrdinary_withSlots {action : SlotTable -> Except CompilationError (α × SlotTable)}
    (ordinary : ∀ table error, action table = .error error -> error.IsOrdinary) :
    (withSlots action).IsOrdinary := by
  intro before error after fails
  unfold withSlots at fails
  split at fails
  · cases fails
  · rename_i stops
    cases fails
    exact ordinary _ _ stops

theorem isOrdinary_addCallee (method : CompiledMethod) : (addCallee method).IsOrdinary := by
  refine .bind (.of_ok fun _ => ⟨_, _, rfl⟩) fun body => ?_
  simp only
  split
  · exact .bind (.of_ok fun _ => ⟨_, _, rfl⟩) fun _ => .pure _
  · exact .throw (.unsupportedShape _)

theorem isOrdinary_lambdaIndex (isKnown : (session.lambda? symbol).isSome = true) :
    (lambdaIndex session symbol).IsOrdinary := by
  refine .bind (.of_ok fun _ => ⟨_, _, rfl⟩) fun body => ?_
  split
  · exact .pure _
  · split
    · rename_i absent
      rw [absent] at isKnown
      cases isKnown
    · simp only
      split
      · exact .bind (.of_ok fun _ => ⟨_, _, rfl⟩) fun _ => .pure _
      · exact .throw (.unsupportedShape _)

variable {outer : Surroundings}

/-- Every step of a compilation is ordinary if called methods are. -/
theorem isOrdinary_of_stepped {action : Compile α}
    (callees : ∀ method, (outer.callee method).IsOrdinary)
    (stepped : Stepped outer (fun id => (outer.session.lambda? id).isSome = true) declares action) :
    action.IsOrdinary := by
  induction stepped with
  | pure value => exact .pure value
  | bind _ _ ofFirst ofNext => exact .bind ofFirst ofNext
  | throw ordinary => exact .throw ordinary
  | emit ordinary => exact isOrdinary_emit ordinary
  | body | implicitReceivers => exact .of_ok fun _ => ⟨_, _, rfl⟩
  | lookup closes => exact isOrdinary_make (asks_isOrdinary.lookup closes)
  | parameterSlot symbol =>
    refine isOrdinary_withSlots fun table error fails => ?_
    cases found : table.parameterSlot symbol with rw [found] at fails
    | ok => cases fails
    | error =>
      cases fails
      exact SlotTable.isOrdinary_parameterSlot found
  | localSlot symbol =>
    refine isOrdinary_withSlots fun table error fails => ?_
    cases found : table.localSlot symbol with rw [found] at fails
    | ok => cases fails
    | error =>
      cases fails
      exact SlotTable.isOrdinary_localSlot found
  | freshSlot => exact isOrdinary_withSlots fun _ _ => SlotTable.isOrdinary_fresh
  | callee method => exact .bind (isOrdinary_make (callees method)) isOrdinary_addCallee
  | lambdaIndex known => exact isOrdinary_lambdaIndex known
  | declareLocal => exact isOrdinary_withSlots fun _ _ => SlotTable.isOrdinary_declare

end Compile

open Compile Session

namespace Make

theorem isOrdinary_method (callees : ∀ method, (outer.callee method).IsOrdinary)
    (symbol : MethodSymbol) (hasReceiver : Bool)
    (knows : operation.Knows fun id => (outer.session.lambda? id).isSome = true) :
    (method outer symbol hasReceiver operation).IsOrdinary := by
  intro before error after fails
  unfold method at fails
  simp only at fails
  split at fails
  · rename_i stops
    cases fails
    exact isOrdinary_of_stepped callees (stepped_bodyCode _ knows) _ _ _ stops
  · cases fails

section

variable {callee : MethodSymbol -> Make CompiledMethod}
  (callees : ∀ method, (callee method).IsOrdinary)

include callees

theorem isOrdinary_lambda {node : FunctionNode}
    (knows : node.body.Knows fun id => (session.lambda? id).isSome = true) :
    (lambda callee session node).IsOrdinary := by
  refine .bind_of_ok (.of_ok fun _ => ⟨_, _, rfl⟩) fun before opening typing opens => ?_
  obtain ⟨_, opened⟩ := opening
  have same : opened.lambdas = session.lambdas := by
    cases opens
    rfl
  have isInside : node.body.Knows fun id => (opened.lambda? id).isSome = true := by
    intro inner member
    rw [lambda?, same]
    exact knows inner member
  refine .bind (asks_isOrdinary.functionType _) fun type => ?_
  refine .bind (isOrdinary_method callees _ _ isInside) fun compiled => ?_
  refine .bind (isOrdinary_ofExcept fun _ => isOrdinary_draft) fun _ => ?_
  refine .bind (isOrdinary_ofExcept fun _ => isOrdinary_draft) fun _ => ?_
  exact .bind (isOrdinary_ofExcept fun _ => isOrdinary_draft) fun _ => .pure _

/-- The run through the functions of a body is ordinary, since inner functions
come first. -/
theorem isOrdinary_lambdas (session : Session) (operation : Operation) :
    (lambdas callee session operation.functions).IsOrdinary := by
  rw [← lambdasInside_eq (throw (.unsupportedShape ""))]
  induction operation.functions generalizing session with
  | nil => exact .pure _
  | cons _ _ ih =>
    rw [lambdasInside]
    split
    · exact ih session
    · refine .bind ?_ fun middle => .bind (ih middle) fun _ => .pure _
      unfold lambdaInside
      split
      · rename_i isInside
        exact isOrdinary_lambda callees isInside
      · exact .throw (.unsupportedShape _)

theorem isOrdinary_topLevel (symbol : MethodSymbol) (operation : Operation) :
    (topLevel callee symbol operation).IsOrdinary := by
  refine .bind (asks_isOrdinary.functionType _) fun type => ?_
  refine .bind (.of_ok fun _ => ⟨_, _, rfl⟩) fun fresh => ?_
  refine .bind (.of_ok fun _ => ⟨_, _, rfl⟩) fun opening => ?_
  refine .bind_of_ok (isOrdinary_lambdas callees _ _) fun before made after making => ?_
  have registers := registers_of_lambdas making
  refine .bind (isOrdinary_method callees _ _ fun node => registers.isSome) fun compiled => ?_
  refine .bind (isOrdinary_ofExcept fun _ => isOrdinary_draft) fun _ => ?_
  exact .bind (isOrdinary_ofExcept fun _ => isOrdinary_draft) fun _ => .pure _

end

theorem isOrdinary_callee (source : Source) (levels : Nat) (active : List SymbolId)
    (method : MethodSymbol) : (callee source levels active method).IsOrdinary :=
  asks_isOrdinary.callee isOrdinary_topLevel source levels active method

/-- Nothing that a source declares fails to compile for want of a function. -/
theorem isOrdinary_declaration (source : Source) (id : SyntaxId) :
    (declaration source id).IsOrdinary :=
  asks_isOrdinary.declaration isOrdinary_topLevel source id

/-- After a successful run through the functions of a tree, every anonymous
function at any depth of it is registered, alone in a sealed unit unless it was
there before, and the count is the number of the symbols that were not.  No
function is compiled before the ones inside it, the cursor is where it was, and
a second run compiles nothing.  So the body of the tree, and everything a source
declares, finds the functions that it loads. -/
theorem functions_registered (source : Source) (levels : Nat) (active : List SymbolId)
    {operation : Operation} {session next : Session} {count : Nat} {before after : Workspace}
    (succeeds : lambdas (callee source levels active) session operation.functions before
      = .ok (next, count) after) :
    (∀ info symbol body,
        Operation.anonymousFunction info symbol body ∈ operation :: operation.descendants ->
          ∃ lambda, next.lambda? symbol.id = some lambda
            ∧ (session.lambda? symbol.id = some lambda
              ∨ lambda.symbol = symbol.id ∧ next.Encloses lambda))
      ∧ ((∀ id lambda, session.lambda? id = some lambda -> session.Encloses lambda) ->
          ∀ id lambda, next.lambda? id = some lambda -> next.Encloses lambda)
      ∧ (∃ fresh : Finset SymbolId, count = fresh.card
          ∧ ∀ id, id ∈ fresh ↔ session.lambda? id = none
            ∧ ∃ info symbol body, symbol.id = id
              ∧ Operation.anonymousFunction info symbol body ∈ operation :: operation.descendants)
      ∧ (∀ refused, lambdasInside refused (callee source levels active) session
          operation.functions = lambdas (callee source levels active) session operation.functions)
      ∧ next.current = session.current
      ∧ (∀ later, lambdas (callee source levels active) next operation.functions later
          = .ok (next, 0) later)
      ∧ (∀ symbol hasReceiver started found finished,
          method ⟨next, callee source levels active⟩ symbol hasReceiver operation started
            ≠ .error (.invalidSymbol "materialized anonymous function" found) finished)
      ∧ ∀ id started found finished, declaration source id started
          ≠ .error (.invalidSymbol "materialized anonymous function" found) finished := by
  have registers := registers_of_lambdas succeeds
  have isKnown {node : FunctionNode} (member : node ∈ operation.functions) := registers.isSome member
  refine ⟨?_, ?_, ⟨_, registers.count_eq, fun _ => mem_unregistered⟩,
    fun refused => lambdasInside_eq refused session operation, registers.current, ?_, ?_, ?_⟩
  · intro info symbol body inTree
    obtain ⟨lambda, found⟩ := Option.isSome_iff_exists.mp
      (isKnown (Operation.mem_functions.mpr ⟨info, inTree⟩ : ⟨symbol, body⟩ ∈ operation.functions))
    exact ⟨lambda, found, registers.known_or_encloses found⟩
  · intro enclosed id lambda found
    rcases registers.known_or_encloses found with earlier | alone
    · exact registers.encloses (enclosed id lambda earlier)
    · exact alone.2
  · intro later
    rw [lambdas_of_registered fun _ => isKnown]
    rfl
  · intro symbol hasReceiver started found finished fails
    exact isOrdinary_method (isOrdinary_callee source levels active) symbol hasReceiver
      (fun _ => isKnown) started _ finished fails found rfl
  · intro id started found finished fails
    exact isOrdinary_declaration source id started _ finished fails found rfl

end Make

namespace Nest

def function (number : Nat) : MethodSymbol := .lambda ⟨number⟩ (.parameter "T")

def load (number : Nat) (body : Operation) : Operation :=
  .expressionStatement {} (.delegateCreation {} (.anonymousFunction {} (function number) body))

/-- A function that loads a function that does nothing. -/
def body : Operation := load 2 (load 3 (.block {} []))

variable {made : CompiledLambda} {number : Nat}

theorem lambdaIndex_run (found : session.lambda? symbol = some made) {body : Body}
    (isFirst : body.lambdas = []) :
    lambdaIndex session symbol body = .ok 0 { body with lambdas := [made] } := by
  rcases body with ⟨emitter, slots, lambdas, callees, implicitReceivers, workspace⟩
  cases isFirst
  have reads (body : Body) : (get : Compile Body) body = .ok body body := rfl
  rw [lambdaIndex]
  simp only [found]
  rfl

/-- The code that loads one function and returns. -/
def loading (name : String) (hasReceiver : Bool) (made : CompiledLambda) : CompiledMethod where
  name
  parameterCount := 0
  hasReceiver
  localCount := 0
  returnsValue := false
  chunk := ⟨#[⟨Opcode.loadDelegate.toByte, 0⟩, ⟨0, 0⟩, ⟨Opcode.returnVoid.toByte, 0⟩]⟩
  pool := {}
  lambdas := [made]
  callees := []

theorem method_load (found : outer.session.lambda? ⟨number⟩ = some made)
    {symbol : MethodSymbol} (noParameters : symbol.parameters = [])
    (noResult : symbol.returnType = .void) (hasReceiver : Bool) (inside : Operation)
    (workspace : Workspace) :
    method outer symbol hasReceiver (load number inside) workspace
      = .ok (loading symbol.name hasReceiver made) workspace := by
  have noValue : symbol.returnsValue = false := by
    rw [MethodSymbol.returnsValue, noResult]
    rfl
  have noSlots : { loading symbol.name hasReceiver made with
      parameterCount := symbol.parameters.length } = loading symbol.name hasReceiver made := by
    rw [noParameters]
    rfl
  let start : Body := { slots := .ofMethod symbol hasReceiver, workspace }
  have loads : code outer .discarded
      (.delegateCreation {} (.anonymousFunction {} (function number) inside)) start
        = .ok () { start with
          lambdas := [made]
          emitter := { chunk := ⟨#[⟨Opcode.loadDelegate.toByte, 0⟩, ⟨0, 0⟩]⟩ } } := by
    have index : delegate outer.session
        (.anonymousFunction {} (function number) inside) start = _ :=
      bind_of_ok (lambdaIndex_run found rfl)
    exact bind_of_ok index
  have run : bodyCode outer false (load number inside) start = _ :=
    bind_of_ok loads
  unfold method
  simp only [noValue]
  rw [show bodyCode outer false (load number inside)
    { slots := .ofMethod symbol hasReceiver, workspace } = _ from run, ← noSlots]
  rfl

/-- A session with a unit that is being filled. -/
def session : Session := ({ number := 1 } : Session).filling { id := 1, name := "Nest", parent := none }

variable (units : Nat)

/-- The workspace when a number of units have been opened. -/
def workspace : Workspace := ⟨Spin.registry, ⟨1, units⟩⟩

def returning (name : String) : CompiledMethod where
  name
  parameterCount := 0
  hasReceiver := true
  localCount := 0
  returnsValue := false
  chunk := ⟨#[⟨Opcode.returnVoid.toByte, 0⟩]⟩
  pool := {}
  lambdas := []
  callees := []

def compiled (session : Session) (units number : Nat) (method : CompiledMethod) : CompiledLambda :=
  enclosed (freshDraft session (workspace units) (function number).name) ⟨number⟩ method
    (Spin.proc, ⟨[], none⟩)

/-- The session once the function is registered. -/
def registering (session : Session) (units number : Nat) (method : CompiledMethod) : Session :=
  (session.withUnit { freshDraft session (workspace units) (function number).name with
    methods := [method], hasDelegate := true, isSealed := true }).register
      (compiled session units number method)

theorem lambda_function {callee : MethodSymbol -> Make CompiledMethod} {session : Session}
    {units : Nat} {inside : Operation} {method : CompiledMethod} (compiles : Make.method
      ⟨session.filling (Make.freshDraft session (workspace units) (function number).name), callee⟩
        (function number) true inside (workspace (units + 1)) = .ok method (workspace (units + 1))) :
    Make.lambda callee session ⟨function number, inside⟩ (workspace units)
      = .ok (registering session units number method) (workspace (units + 1)) :=
  Make.lambda_run (Spin.functionType_plain Spin.getElem?_types_proc rfl rfl _) compiles

theorem lambda?_registering (session : Session) (units number : Nat) (method : CompiledMethod)
    (id : SymbolId) : (registering session units number method).lambda? id
      = if ⟨number⟩ = id then some (compiled session units number method) else session.lambda? id := by
  rw [lambda?, registering, register, Std.HashMap.getElem?_insert]
  simp only [beq_iff_eq]
  rfl

def innerSession : Session := registering session 1 3 (returning "<lambda>3")

def innerFunction : CompiledLambda := compiled session 1 3 (returning "<lambda>3")

def outerSession : Session := registering innerSession 2 2 (loading "<lambda>2" true innerFunction)

/-- The two functions are registered in every session that does not know them. -/
theorem lambdas_of_absent (callee : MethodSymbol -> Make CompiledMethod) {session : Session}
    (absent : ∀ id, session.lambda? id = none) (units : Nat) :
    Make.lambdas callee session body.functions (workspace units) = .ok
      (registering (registering session units 3 (returning "<lambda>3")) (units + 1) 2
        (loading "<lambda>2" true (compiled session units 3 (returning "<lambda>3"))), 2)
      (workspace (units + 2)) := by
  let innerSession := registering session units 3 (returning "<lambda>3")
  let outerSession := registering innerSession (units + 1) 2
    (loading "<lambda>2" true (compiled session units 3 (returning "<lambda>3")))
  have inner : Make.lambda callee session ⟨function 3, .block {} []⟩ (workspace units)
      = .ok innerSession (workspace (units + 1)) := lambda_function rfl
  have found : innerSession.lambda? ⟨3⟩ = some (compiled session units 3 (returning "<lambda>3")) :=
    (lambda?_registering session units 3 _ ⟨3⟩).trans (if_pos rfl)
  have outer : Make.lambda callee innerSession ⟨function 2, load 3 (.block {} [])⟩
      (workspace (units + 1)) = .ok outerSession (workspace (units + 2)) :=
    lambda_function (method_load found rfl rfl _ _ _)
  have outerAbsent : innerSession.lambda? ⟨2⟩ = none := by
    rw [lambda?_registering, if_neg (by decide), absent]
  have last : Make.lambdas callee innerSession [⟨function 2, load 3 (.block {} [])⟩]
      (workspace (units + 1)) = .ok (outerSession, 1) (workspace (units + 2)) := by
    rw [Make.lambdas, if_neg (by rw [show (function 2).id = ⟨2⟩ from rfl, outerAbsent]; decide),
      bind_of_ok outer]
    rfl
  rw [show body.functions = [⟨function 3, .block {} []⟩, ⟨function 2, load 3 (.block {} [])⟩] from rfl,
    Make.lambdas, if_neg (by rw [absent]; decide), bind_of_ok inner,
    bind_of_ok last]
  rfl

theorem lambdas_body (callee : MethodSymbol -> Make CompiledMethod) :
    lambdas callee session body.functions (workspace 1) = .ok (outerSession, 2) (workspace 3) :=
  lambdas_of_absent callee (fun _ => Std.HashMap.getElem?_empty) 1

def source : Source := .ofDeclarations 1 [.method ⟨Spin.symbol, body⟩]

/-- The session of the method before its functions are compiled, when a number of
units have been opened. -/
def started : Session :=
  ({ number := 1 } : Session).filling
    (freshDraft { number := 1 } ⟨Spin.registry, ⟨0, units⟩⟩ "Spin")

def outerFunction : CompiledLambda :=
  compiled (registering (started units) (units + 1) 3 (returning "<lambda>3")) (units + 2) 2
    (loading "<lambda>2" true (compiled (started units) (units + 1) 3 (returning "<lambda>3")))

theorem declaration_source : ∃ function,
    declaration source ⟨1⟩ ⟨Spin.registry, ⟨0, units⟩⟩ = .ok function (workspace (units + 3))
      ∧ function.method = loading "Spin" false (outerFunction units)
      ∧ function.delegateType = Spin.proc ∧ function.signature = ⟨[], none⟩ := by
  have absent (id : SymbolId) : (started units).lambda? id = none := Std.HashMap.getElem?_empty
  have found : (registering (registering (started units) (units + 1) 3 (returning "<lambda>3"))
      (units + 2) 2 (loading "<lambda>2" true (compiled (started units) (units + 1) 3
        (returning "<lambda>3")))).lambda? ⟨2⟩ = some (outerFunction units) :=
    (lambda?_registering _ (units + 2) 2 _ ⟨2⟩).trans (if_pos rfl)
  change ∃ function,
    (functionType Spin.symbol >>= _) ⟨Spin.registry, ⟨0, units⟩⟩ = .ok function _ ∧ _
  rw [bind_of_ok (Spin.functionType_plain Spin.getElem?_types_proc rfl rfl _)]
  change ∃ function, (lambdas _ (started units) body.functions >>= _) (workspace (units + 1))
      = .ok function _ ∧ _
  rw [bind_of_ok (lambdas_of_absent _ absent (units + 1))]
  change ∃ function, (method ⟨_, _⟩ Spin.symbol false (load 2 _) >>= _) (workspace (units + 3))
      = .ok function _ ∧ _
  rw [bind_of_ok (method_load found rfl rfl _ _ _)]
  exact ⟨_, rfl, rfl, rfl, rfl⟩

end Nest

/-- Both functions are registered, the inner one first, and the cursor is where
it was. -/
theorem nest_functions_registered :
    Make.lambdas (Make.callee Spin.source 0 []) Nest.session Nest.body.functions (Nest.workspace 1)
        = .ok (Nest.outerSession, 2) (Nest.workspace 3)
      ∧ (∃ lambda, Nest.outerSession.lambda? ⟨3⟩ = some lambda
        ∧ Nest.outerSession.Encloses lambda)
      ∧ (∃ lambda, Nest.outerSession.lambda? ⟨2⟩ = some lambda
        ∧ Nest.outerSession.Encloses lambda)
      ∧ Nest.outerSession.current = some 0
      ∧ Make.lambdas (Make.callee Spin.source 0 []) Nest.outerSession Nest.body.functions
          (Nest.workspace 3) = .ok (Nest.outerSession, 0) (Nest.workspace 3) := by
  have succeeds := Nest.lambdas_body (Make.callee Spin.source 0 [])
  obtain ⟨registered, _, _, _, current, again, _⟩ :=
    Make.functions_registered Spin.source 0 [] succeeds
  have absent (id : SymbolId) : Nest.session.lambda? id = none := Std.HashMap.getElem?_empty
  have found (info : Info) (symbol : MethodSymbol) (body : Operation)
      (inTree : Operation.anonymousFunction info symbol body
        ∈ Nest.body :: Nest.body.descendants) :
      ∃ lambda, Nest.outerSession.lambda? symbol.id = some lambda
        ∧ Nest.outerSession.Encloses lambda := by
    obtain ⟨lambda, isThere, earlier | ⟨_, alone⟩⟩ := registered info symbol body inTree
    · cases (absent symbol.id).symm.trans earlier
    · exact ⟨lambda, isThere, alone⟩
  have functions : Nest.body.functions
      = [⟨Nest.function 3, .block {} []⟩, ⟨Nest.function 2, Nest.load 3 (.block {} [])⟩] := rfl
  have inside (node : FunctionNode) (member : node ∈ Nest.body.functions) :
      ∃ lambda, Nest.outerSession.lambda? node.symbol.id = some lambda
        ∧ Nest.outerSession.Encloses lambda := by
    obtain ⟨info, inTree⟩ := Operation.mem_functions.mp member
    exact found info node.symbol node.body inTree
  rw [functions] at inside
  exact ⟨succeeds, inside _ List.mem_cons_self,
    inside _ (List.mem_cons_of_mem _ List.mem_cons_self), current, again _⟩

end OpMachine
