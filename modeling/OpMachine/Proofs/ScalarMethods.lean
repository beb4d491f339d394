import OpMachine.Proofs.ArraySimulation

namespace OpMachine

/-!
# Calls of compiled methods

A compiled method answers a call with the result that the evaluation of its
body has on the arguments.  The call may happen anywhere: nothing is assumed
about the activations that wait for its result.  If the body is scalar, the heap
is left as it was.
-/

/-! ## Outcomes of machines -/

namespace Machine

variable {host : Host} {machine : Machine}

/-- What an outcome with a heap means for a machine that runs for a number of
rounds. -/
def Shows (host : Host) (machine : Machine) (rounds : Nat) : Except Halt Value × Heap -> Prop
  | (.ok value, heap) => machine.Ends host ⟨.ok value, heap⟩
  | (.error (.failed error), heap) => machine.Ends host ⟨.error error, heap⟩
  | (.error .unfinished, _) => machine.run host rounds = none
  | (.error .outside, _) => False

private theorem failed_injective {first second : Except RuntimeError Value}
    (same : first.mapError Halt.failed = second.mapError Halt.failed) : first = second := by
  cases first <;> cases second <;> cases same <;> rfl

/-- A machine that shows an outcome for every number of rounds ends exactly in
the finished ones among them. -/
theorem ends_iff_of_shows {outcome : Nat -> Except Halt Value × Heap}
    (shows : ∀ rounds, machine.Shows host rounds (outcome rounds)) (ending : Ending) :
    machine.Ends host ending ↔ ∃ rounds,
      outcome rounds = (ending.result.mapError Halt.failed, ending.heap) := by
  have ends (rounds : Nat) : (outcome rounds).1 = .error .unfinished
        ∧ machine.run host rounds = none
      ∨ ∃ last : Ending, outcome rounds = (last.result.mapError Halt.failed, last.heap)
        ∧ machine.Ends host last := by
    have shown := shows rounds
    generalize outcome rounds = shownOutcome at shown
    obtain ⟨result, heap⟩ := shownOutcome
    cases result with
    | ok value => exact .inr ⟨⟨.ok value, heap⟩, rfl, shown⟩
    | error halt =>
      cases halt with
      | failed error => exact .inr ⟨⟨.error error, heap⟩, rfl, shown⟩
      | unfinished => exact .inl ⟨rfl, shown⟩
      | outside => exact shown.elim
  constructor
  · rintro ⟨steps, run⟩
    rcases ends steps with ⟨_, stillRunning⟩ | ⟨last, isLast, endsSo⟩
    · rw [run] at stillRunning
      cases stillRunning
    · obtain rfl := endsSo.unique ⟨steps, run⟩
      exact ⟨steps, isLast⟩
  · rintro ⟨rounds, isEnding⟩
    rcases ends rounds with ⟨isUnfinished, _⟩ | ⟨last, isLast, endsSo⟩
    · rw [isEnding] at isUnfinished
      obtain ⟨answer, heap⟩ := ending
      cases answer <;> cases isUnfinished
    · obtain ⟨_, _⟩ := ending
      obtain ⟨sameResult, sameHeap⟩ := Prod.mk.inj (isLast.symm.trans isEnding)
      cases failed_injective sameResult
      cases sameHeap
      exact endsSo

end Machine

/-! ## Results of calls -/

/-- What a result means for a machine that is about to call something. -/
def Callee.Gives (callee : Callee) (host : Host) (rounds : Nat) (waiting : List Activation)
    (depth : Nat) (heap : Heap) : Except Halt Value -> Prop
  | .ok value => value.isShared = true ∧
      Machine.Reaches host ⟨.call callee, waiting, depth, heap⟩
        ⟨.give (.ok value), waiting, depth, heap⟩
  | .error (.failed error) => Machine.Reaches host ⟨.call callee, waiting, depth, heap⟩
      ⟨.give (.error error), waiting, depth, heap⟩
  | .error .unfinished => Machine.run host rounds ⟨.call callee, waiting, depth, heap⟩ = none
  | .error .outside => False

/-- At the outermost level a call ends exactly in the results that it gives
for some number of rounds. -/
theorem Callee.Gives.ends_iff {host : Host} {result : Nat -> Except Halt Value}
    (gives : ∀ rounds, callee.Gives host rounds [] 0 heap (result rounds)) (ending : Ending) :
    Machine.Ends host { control := .call callee, heap } ending
      ↔ ending.heap = heap ∧ ∃ rounds,
        result rounds = ending.result.mapError Halt.failed := by
  have shows (rounds : Nat) : Machine.Shows host { control := .call callee, heap } rounds
      (result rounds, heap) := by
    have given := gives rounds
    cases outcome : result rounds with rw [outcome] at given
    | ok => exact given.2.ends (.of_step rfl)
    | error halt =>
      cases halt with
      | failed => exact given.ends (.of_step rfl)
      | unfinished | outside => exact given
  rw [Machine.ends_iff_of_shows shows]
  constructor
  · rintro ⟨rounds, same⟩
    obtain ⟨sameResult, sameHeap⟩ := Prod.mk.inj same
    exact ⟨sameHeap.symm, rounds, sameResult⟩
  · rintro ⟨sameHeap, rounds, sameResult⟩
    exact ⟨rounds, Prod.mk.injEq .. ▸ ⟨sameResult, sameHeap.symm⟩⟩

/-! ## Entering a method -/

theorem Frame.copyAll_shared {arguments : List Value} {heap : Heap}
    (shared : ∀ value, value ∈ arguments -> value.isShared = true) (first : Array Value) :
    copyAll arguments first heap = (first ++ arguments.toArray, heap) := by
  induction arguments generalizing first with
  | nil => exact congrArg (·, heap) Array.append_empty.symm
  | cons value _ ih =>
    rw [copyAll, Execute.copied_shared (shared value (.head _))]
    refine (ih (fun other member => shared other (.tail _ member))
      (first.push value)).trans ?_
    simp

namespace CompiledMethod.Encodes

variable {method : CompiledMethod} {outer : Surroundings} {origin : Catalog}
  {symbol : MethodSymbol} {operation : Operation} {finished : Body} {code : MarkedCode}

theorem separate (encodes : method.Encodes outer origin symbol operation finished code) :
    finished.slots.Separate := ⟨encodes.sound.slots, encodes.sound.distinct⟩

theorem enter (encodes : method.Encodes outer origin symbol operation finished code)
    {arguments : List Value} (heap : Heap) (receiver : Option Value)
    (count : arguments.length = symbol.parameters.length)
    (shared : ∀ value, value ∈ arguments -> value.isShared = true) :
    ∃ frame : Frame, Frame.enter method receiver arguments heap = .ok (frame, heap)
      ∧ frame.method = method ∧ frame.operands = [] ∧ frame.position = 0
      ∧ (Store.initial arguments).In finished.slots frame.arguments frame.locals := by
  unfold Frame.enter
  rw [if_pos (count.trans encodes.parameterCount.symm)]
  simp only [Frame.copyAll_shared shared]
  refine ⟨_, rfl, rfl, rfl, rfl, ?_⟩
  exact
    { arguments := ⟨_, by rw [encodes.receiver]; split <;> rfl, rfl⟩
      argumentCount := (List.size_toArray ..).trans (count.trans encodes.parameters.symm)
      localCount := Array.size_replicate.trans encodes.localCount
      locals := by
        intro id slot found
        have inside := encodes.sound.slots id slot found
        rw [← encodes.localCount] at inside
        exact Array.getElem?_replicate.trans (if_pos inside)
      sharedArguments := fun value member => shared value (List.mem_toArray.mp member)
      sharedLocals := fun _ => rfl }

section

variable {host : Host} {waiting : List Activation} {depth : Nat} {heap : Heap}
  {callable : MethodSymbol -> Prop} {evaluator : Evaluator} {arguments : List Value}

variable (encodes : method.Encodes outer origin symbol operation finished code)
  (understands : Situation.Understands ⟨host, waiting, depth + 1, heap, method, finished.slots⟩ outer origin finished callable evaluator)
  (returns : evaluator.returnsValue = symbol.returnsValue)

include encodes understands returns

/-- A call leads to what the evaluation of the body has as its outcome. -/
theorem leads
    (computes : operation.ComputesStatement heap.SharesItems symbol.parameters.length callable)
    (shallow : depth < host.maximumDepth) (receiver : Option Value)
    (count : arguments.length = symbol.parameters.length)
    (shared : ∀ value, value ∈ arguments -> value.isShared = true) :
    Situation.Leads ⟨host, waiting, depth + 1, heap, method, finished.slots⟩ evaluator.rounds
      ⟨.call (.method method receiver arguments), waiting, depth, heap⟩
      (fun value world machine => value.isShared = true
        ∧ machine = ⟨.give (.ok value), waiting, depth, world.heap⟩)
      (evaluator.performBody .readFirst operation ⟨.initial arguments, heap⟩) := by
  let situation : Situation := ⟨host, waiting, depth + 1, heap, method, finished.slots⟩
  obtain ⟨frame, entered, isMethod, noOperands, atStart, held⟩ :=
    encodes.enter heap receiver count shared
  have steps : Machine.step host ⟨.call (.method method receiver arguments), waiting, depth, heap⟩
      = .running (situation.running heap frame) := by
    simp only [Machine.step, Machine.callMethod, if_neg (Nat.not_le.mpr shallow), entered]
    rfl
  have placed : frame.At code := by
    rw [Frame.At, isMethod, atStart]
    refine Chunk.holds_of_values_eq method.chunk [] code.bytes [] ?_
    rw [encodes.values, List.nil_append, List.append_nil]
  rw [← encodes.parameters] at computes
  have follows := Situation.Follows.of_translates understands encodes.translates encodes.fits
    returns.symm computes frame [] ⟨.initial arguments, heap⟩ isMethod noOperands placed
    ⟨held, id⟩
  exact follows.reached (.single steps)

/-- A call of a scalar method gives the result of the body on its arguments. -/
theorem gives_shared (scalar : operation.IsScalarStatement symbol.parameters.length callable)
    (shallow : depth < host.maximumDepth) (receiver : Option Value)
    (count : arguments.length = symbol.parameters.length)
    (shared : ∀ value, value ∈ arguments -> value.isShared = true) :
    (Callee.method method receiver arguments).Gives host evaluator.rounds waiting depth heap
      (evaluator.result operation arguments) := by
  have leads := encodes.leads understands returns
    (Operation.IsScalarStatement.computes operation scalar) shallow receiver count shared
  rw [evaluator.performBody_of_isScalar .readFirst scalar] at leads
  unfold Evaluator.result
  unfold Perform.onStore at leads
  cases outcome : evaluator.body operation (.initial arguments) with rw [outcome] at leads
  | ok =>
    obtain ⟨_, reaches, good, rfl⟩ := leads
    exact ⟨good, reaches⟩
  | error halt => cases halt <;> exact leads

theorem gives (scalar : operation.IsScalarStatement symbol.parameters.length callable)
    (shallow : depth < host.maximumDepth) (receiver : Option Value)
    (count : arguments.length = symbol.parameters.length)
    (scalars : ∀ value, value ∈ arguments -> value.isScalar = true) :
    (Callee.method method receiver arguments).Gives host evaluator.rounds waiting depth heap
      (evaluator.result operation arguments) :=
  encodes.gives_shared understands returns scalar shallow receiver count fun value member =>
    Value.isShared_of_isScalar (scalars value member)

end

end CompiledMethod.Encodes
/-! ## Scalar bodies -/

/-- The evaluation of the body of a method, in a catalog and with a meaning for
the methods it calls. -/
def MethodSymbol.evaluator (symbol : MethodSymbol) (catalog : Catalog) (rounds : Nat)
    (call : MethodSymbol -> List Value -> Except Halt Value) : Evaluator where
  rounds
  typeOf := catalog.denoted?
  returnsValue := symbol.returnsValue
  call

/-- No method has a meaning. -/
def noCalls (_ : MethodSymbol) (_ : List Value) : Except Halt Value := .error .outside

/-- A body that compiles runs as its tree is evaluated: a call of the compiled
method ends with a value or a failure exactly when the evaluation of the tree on
the same arguments has this value or this failure for some number of rounds,
and it leaves the heap as it was. -/
theorem Make.method_ends_iff (source : Source) (levels : Nat) (active : List SymbolId)
    (session : Session) {symbol : MethodSymbol} {hasReceiver : Bool} {operation : Operation}
    {before after : Workspace} {compiled : CompiledMethod}
    (compiles : Make.method ⟨session, Make.callee source levels active⟩ symbol hasReceiver operation
      before = .ok compiled after)
    (scalar : operation.IsScalarStatement symbol.parameters.length fun _ => False)
    {host : Host} (limit : 1 ≤ host.maximumDepth) (receiver : Option Value)
    {arguments : List Value} (count : arguments.length = symbol.parameters.length)
    (scalars : ∀ value, value ∈ arguments -> value.isScalar = true) (heap : Heap)
    (ending : Ending) :
    Machine.Ends host { control := .call (.method compiled receiver arguments), heap } ending
      ↔ ending.heap = heap ∧ ∃ rounds,
        (symbol.evaluator before.catalog rounds noCalls).result operation arguments
          = ending.result.mapError Halt.failed := by
  obtain ⟨_, finished, _, encodes, _⟩ :=
    Make.method_ok (Make.conservative_callee source levels active session) compiles
  refine Callee.Gives.ends_iff (fun rounds => ?_) ending
  have understands : Situation.Understands ⟨host, [], 1, heap, compiled, finished.slots⟩
      ⟨session, Make.callee source levels active⟩ before.catalog finished (fun _ => False)
      (symbol.evaluator before.catalog rounds noCalls) :=
    { pool := encodes.pool
      table := rfl
      separate := encodes.separate
      typeOf := rfl
      calls := fun _ _ _ _ _ _ impossible => impossible.elim }
  exact encodes.gives understands rfl scalar limit receiver count scalars

namespace Toggle

def symbol : MethodSymbol :=
  ({ id := ⟨1⟩, name := "Toggle", containingType := .simple "T", returnType := .bool }
    : MethodSymbol).addParameter "a" .bool |>.addParameter "b" .bool

def first : Operation := .parameter { type := some .bool } ⟨"a", 0, .bool, ⟨1⟩⟩

def second : Operation := .parameter { type := some .bool } ⟨"b", 1, .bool, ⟨1⟩⟩

/-- `while (a) { a = (b = !b); } return b;` -/
def body : Operation :=
  .block {} [
    .whileLoop {} first (.assignment { type := some .bool } first
      (.assignment { type := some .bool } second (.unary { type := some .bool } .not second))),
    .returnStatement {} (some second)]

end Toggle

theorem toggle_ends : ∃ compiled after,
    Make.method ⟨{ number := 1 }, Make.callee {} 0 []⟩ Toggle.symbol false Toggle.body
        { catalog := {} } = .ok compiled after
      ∧ Machine.Ends { catalog := {}, maximumDepth := 1 }
          { control := .call (.method compiled none [.bool true, .bool true]), heap := {} }
          ⟨.ok (.bool false), {}⟩ := by
  obtain ⟨compiled, after, compiles⟩ : ∃ compiled after,
      Make.method ⟨{ number := 1 }, Make.callee {} 0 []⟩ Toggle.symbol false Toggle.body
        { catalog := {} } = .ok compiled after := ⟨_, _, rfl⟩
  have firstScalar : Toggle.first.IsScalarOperand 2 fun _ => False := ⟨rfl, rfl, by decide⟩
  have secondScalar : Toggle.second.IsScalarOperand 2 fun _ => False := ⟨rfl, rfl, by decide⟩
  have scalar : Toggle.body.IsScalarStatement 2 fun _ => False :=
    ⟨⟨firstScalar, rfl, firstScalar.2.2, rfl, rfl, secondScalar.2.2, rfl, rfl, secondScalar⟩,
      secondScalar, trivial⟩
  refine ⟨compiled, after, compiles, ?_⟩
  exact (Make.method_ends_iff {} 0 [] _ compiles scalar (Nat.le_refl 1) none rfl (by decide) {} _).mpr
    ⟨rfl, 2, rfl⟩

end OpMachine
