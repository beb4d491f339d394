import OpMachine.Proofs.CompiledMethods
import OpMachine.Proofs.TemporarySlots

namespace OpMachine

/-!
# Compiled scalar bodies compute what their trees mean

The code of every expression and every statement of the scalar fragment follows
the evaluation of its tree when the code of its parts does.  There is one lemma
for each rule of the translation relation; the induction on that relation comes
after the rules for arrays.
-/

/-! ## Operators -/

namespace Arithmetic

variable {opcode : Opcode} {left right value operand : Value}

theorem orMismatch_scalar {α : Type}
    {wrap : α -> Value} (wraps : ∀ result, (wrap result).isScalar = true)
    {result : Option α} (gives : orMismatch opcode left right wrap result = .ok value) :
    value.isScalar = true := by
  cases result with
  | none => cases gives
  | some result =>
    cases gives
    exact wraps result

theorem shift_scalar (gives : shift opcode left right = .ok value) : value.isScalar = true := by
  unfold shift at gives
  split at gives
  · cases gives
  · split at gives
    · rename_i shifted
      cases gives
      unfold shifted? at shifted
      split at shifted <;> cases shifted <;> rfl
    · cases gives

theorem binary_scalar (gives : binary opcode left right = .ok value) : value.isScalar = true := by
  have integers {α : Type} {result : Except RuntimeError (Option α)} {wrap : α -> Value}
      (wraps : ∀ result, (wrap result).isScalar = true)
      (gives : (do orMismatch opcode left right wrap (← result)) = .ok value) :
      value.isScalar = true := by
    cases result with
    | error => cases gives
    | ok => exact orMismatch_scalar wraps gives
  unfold binary at gives
  split at gives
  · exact shift_scalar gives
  · split at gives
    · exact integers (fun _ => rfl) gives
    · exact integers (fun _ => rfl) gives
    · exact integers (fun _ => rfl) gives
    · exact integers (fun _ => rfl) gives
    · exact orMismatch_scalar (fun _ => rfl) gives
    · exact orMismatch_scalar (fun _ => rfl) gives
    · exact orMismatch_scalar (fun _ => rfl) gives
    · unfold joined at gives
      split at gives
      · cases gives
        rfl
      · cases gives
        rfl
      · cases gives

theorem unary_scalar (gives : unary opcode operand = .ok value) : value.isScalar = true := by
  unfold unary at gives
  split at gives <;> cases gives <;> rfl

theorem convert_scalar (gives : convert kind operand = .ok value) : value.isScalar = true := by
  unfold convert at gives
  split at gives
  · cases gives
    cases kind <;> rfl
  · cases gives
    cases kind <;> rfl
  · split at gives
    · cases gives
      cases kind <;> rfl
    · cases gives

end Arithmetic

open MarkedCode

open Perform (check write)

namespace Situation

variable {situation : Situation} {rounds : Nat} {opcode : Opcode}
  {apply : Value -> Value -> Except RuntimeError Value} {left right operand : Value}
  {code : MarkedCode} {complete : opcode.operandSize = 0}

theorem Simulates.onTwo
    (isOperator : Execute.operation situation.host.catalog opcode = Execute.onTwo apply)
    (shared : ∀ value, apply left right = .ok value -> Shared value) :
    situation.Simulates rounds [right, left] (plain opcode complete)
      (check (apply left right)) Shared fun value => .on [value] := by
  intro frame rest world isMethod operands placed held
  exact leads_check (size_plain ..)
    (Execute.instruction_onTwo isOperator placed.single operands) shared held

theorem Simulates.onOne {apply : Value -> Except RuntimeError Value}
    (isOperator : Execute.operation situation.host.catalog opcode = Execute.onOne apply)
    (shared : ∀ value, apply operand = .ok value -> Shared value) :
    situation.Simulates rounds [operand] (plain opcode complete)
      (check (apply operand)) Shared fun value => .on [value] := by
  intro frame rest world isMethod operands placed held
  exact leads_check (size_plain ..)
    (Execute.instruction_onOne isOperator placed.single operands) shared held

theorem Simulates.operator (operates : Compile.Operates [opcode] code)
    (isOperator : Execute.operation situation.host.catalog opcode = Execute.onTwo apply)
    (shared : ∀ value, apply left right = .ok value -> Shared value) :
    situation.Simulates rounds [right, left] code (check (apply left right)) Shared
      fun value => .on [value] := by
  cases operates with
  | next _ _ _ later =>
    cases later with
    | none =>
      rw [← bind_pure (check (apply left right))]
      exact (onTwo isOperator shared).bind fun value good =>
        .nothing (fun value => [value]) _ good

theorem Simulates.complement (test : Value -> Value -> Except RuntimeError Bool)
    (operates : Compile.Operates [opcode, .not] code)
    (isOperator : Execute.operation situation.host.catalog opcode
      = Execute.onTwo fun left right => return .bool (← test left right)) :
    situation.Simulates rounds [right, left] code
      (check (do return .bool !(← test left right))) Shared fun value => .on [value] := by
  cases operates with
  | next _ _ _ later =>
    cases later with
    | next _ _ _ last =>
      cases last with
      | none =>
        have inTwo : check (do return .bool !(← test left right)) =
            check (do return .bool (← test left right)) >>= fun value =>
              check (Arithmetic.unary .not value) >>= pure := by
          cases test left right with
          | error | ok => rfl
        rw [inTwo]
        refine (onTwo isOperator ?_).bind fun value _ => ?_
        · intro value gives
          cases outcome : test left right with rw [outcome] at gives
          | error => cases gives
          | ok =>
            cases gives
            rfl
        · exact (onOne rfl fun _ gives =>
            Value.isShared_of_isScalar (Arithmetic.unary_scalar gives)).bind
            fun value good => .nothing (fun value => [value]) _ good

theorem Simulates.binary (operator : BinaryOperator) (left right : Value)
    (operates : Compile.Operates operator.opcodes code) :
    situation.Simulates rounds [right, left] code (check (operator.apply left right))
      Shared fun value => .on [value] := by
  have compared {opcode : Opcode} (value : Value)
      (gives : (do return .bool (← Arithmetic.compare opcode left right)) = Except.ok value) :
      Shared value := by
    cases outcome : Arithmetic.compare opcode left right with rw [outcome] at gives
    | error => cases gives
    | ok =>
      cases gives
      rfl
  cases operator with
  | equals => exact .operator operates rfl fun _ gives => Except.ok.inj gives ▸ rfl
  | lessThan | greaterThan => exact .operator operates rfl compared
  | notEquals => exact .complement (fun left right => .ok (left.equals right)) operates rfl
  | lessThanOrEqual | greaterThanOrEqual =>
    exact .complement (Arithmetic.compare _) operates rfl
  | _ => exact .operator operates rfl fun _ gives =>
    Value.isShared_of_isScalar (Arithmetic.binary_scalar gives)

theorem Simulates.unary (operator : UnaryOperator)
    (shared : Shared operand) (operates : Compile.Operates operator.opcodes code) :
    situation.Simulates rounds [operand] code (check (operator.apply operand)) Shared
      fun value => .on [value] := by
  cases operator with
  | plus =>
    cases operates with
    | none => exact .nothing (fun value => [value]) _ shared
  | negate | not | bitwiseNot =>
    cases operates with
    | next _ _ _ later =>
      cases later with
      | none =>
        rw [← bind_pure (check _)]
        exact (onOne rfl fun _ gives =>
            Value.isShared_of_isScalar (Arithmetic.unary_scalar gives)).bind
          fun value good => .nothing (fun value => [value]) _ good

end Situation

/-! ## Conversions -/

theorem NumericKind.typeHash_of_ofType? {type : TypeHash} (found : ofType? type = some kind) :
    kind.typeHash = type := by
  have matched := List.find?_some found
  exact eq_of_beq matched

namespace Compile

variable {outer : Surroundings} {origin : Catalog} {depth : Nat} {finished : Body}
  {descriptor : Descriptor} {type : TypeHash}

/-- A type that is found while a body is compiled is the one that the descriptor
denotes in the catalog at the beginning. -/
theorem denoted_of_resolve (sound : before.Sound outer origin)
    (runs : resolve descriptor before = .ok type after) :
    origin.denoted? descriptor = some type := by
  obtain ⟨workspace, resolved, _⟩ := make_ok runs
  obtain ⟨answer, middle, answered, given⟩ := ok_of_bind resolved
  have isAnswer : (before.workspace.catalog.lookup (Catalog.resolve descriptor)).1 = answer := by
    cases answered
    rfl
  rw [Catalog.denoted?, ← (Catalog.regular_resolve descriptor).stable origin before.workspace.catalog
    sound.origin.toSameRegistered, isAnswer]
  cases answer with
  | none => cases given
  | some =>
    cases given
    rfl

theorem Obtains.denoted (found : Obtains outer origin depth finished (resolve descriptor) type) :
    origin.denoted? descriptor = some type := by
  obtain ⟨_, _, sound, _, runs, _⟩ := found.run
  exact denoted_of_resolve sound runs

/-- The static type of an operand that was found while a body was compiled. -/
theorem Obtains.kindOf {evaluator : Evaluator} (typeOf : evaluator.typeOf = origin.denoted?)
    (found : Obtains outer origin depth finished (staticType operation) type) :
    evaluator.kindOf operation.type = NumericKind.ofType? type := by
  unfold staticType at found
  cases typed : operation.type with rw [typed] at found
  | none =>
    obtain ⟨_, _, _, _, runs, _⟩ := found.run
    cases runs
  | some descriptor =>
    rw [Evaluator.kindOf, typeOf]
    change (origin.denoted? descriptor).bind NumericKind.ofType? = _
    rw [found.denoted, Option.bind_some]

end Compile

open Evaluator (converted perform performBody start)

namespace Situation

variable {situation : Situation} {rounds : Nat} {code : MarkedCode} {value : Value}

theorem Simulates.converts {source target : TypeHash} {evaluator : Evaluator}
    (converts : Compile.Converts source target code)
    (fromType : evaluator.kindOf sourceType = NumericKind.ofType? source)
    (toType : evaluator.kindOf targetType = NumericKind.ofType? target) (shared : Shared value) :
    situation.Simulates rounds [value] code
      (check (evaluator.converted sourceType targetType value)) Shared
      fun value => .on [value] := by
  have idle (same : evaluator.converted sourceType targetType value = .ok value) :
      situation.Simulates rounds [value] .empty
        (check (evaluator.converted sourceType targetType value)) Shared
        fun value => .on [value] := by
    rw [same]
    exact .nothing (fun value => [value]) _ shared
  cases converts with
  | same equal =>
    refine idle ?_
    rw [converted, fromType, toType, equal]
    cases NumericKind.ofType? source with
    | none => rfl
    | some => exact if_pos rfl
  | reference _ notBoth =>
    refine idle ?_
    rw [converted, fromType, toType]
    rcases notBoth with noTarget | noSource
    · rw [noTarget]
    · rw [noSource]
      cases NumericKind.ofType? target <;> rfl
  | number kind sourceKind different toKind fromKind =>
    have otherKind : kind ≠ sourceKind := by
      intro same
      subst same
      exact different ((NumericKind.typeHash_of_ofType? toKind).symm.trans
        (NumericKind.typeHash_of_ofType? fromKind))
    have isConversion : evaluator.converted sourceType targetType value
        = Arithmetic.convert kind value := by
      rw [converted, fromType, toType, toKind, fromKind]
      exact if_neg otherKind
    rw [isConversion]
    intro frame rest world isMethod operands placed held
    exact leads_check rfl (Execute.instruction_convert placed.single operands)
      (fun _ gives => Value.isShared_of_isScalar (Arithmetic.convert_scalar gives)) held

/-! ## Literals -/

theorem Simulates.plainPush
    (pushes : Execute.operation situation.host.catalog opcode = Execute.pushing (pure value))
    (shared : Shared value) :
    situation.Simulates rounds [] (plain opcode complete) (pure value) Shared
      fun value => .on [value] := by
  refine .push shared fun frame heap isMethod placed => ?_
  rw [size_plain]
  exact Execute.instruction_push pushes placed.single

theorem Simulates.constant {constant : Constant}
    (loads : Emit.Loads situation.method.pool constant code) (exact : constant.isExact = true)
    (isValue : constant.value? = some value) (shared : Shared value) :
    situation.Simulates rounds [] code (pure value) Shared fun value => .on [value] := by
  rcases loads with ⟨index, present, rfl⟩ | ⟨index, present, rfl⟩
  · refine .push shared fun frame heap isMethod placed => ?_
    exact Execute.instruction_constant placed.single (isMethod ▸ present.exact exact) isValue
  · refine .push shared fun frame heap isMethod placed => ?_
    exact Execute.instruction_constantWide placed.single (isMethod ▸ present.exact exact) isValue

theorem Simulates.literal {literal : Literal}
    (loads : literal.Loads situation.method.pool code) (exact : literal.isExact = true) :
    ∃ value, Value.ofLiteral? literal = some value
      ∧ situation.Simulates rounds [] code (pure value) Shared fun value => .on [value] := by
  cases literal with
  | null =>
    cases loads
    exact ⟨.null, rfl, .plainPush rfl rfl⟩
  | bool truth =>
    cases loads
    cases truth with
    | true => exact ⟨.bool true, rfl, .plainPush rfl rfl⟩
    | false => exact ⟨.bool false, rfl, .plainPush rfl rfl⟩
  | float | double => cases exact
  | char | decimal => exact loads.elim
  | _ => exact ⟨_, rfl, .constant loads rfl rfl rfl⟩

/-! ## Variables -/

end Situation

namespace Compile

variable {outer : Surroundings} {origin : Catalog} {depth : Nat} {finished : Body}

theorem storedAt_parameter (found : table.parameterSlot symbol = .ok slot)
    (inside : symbol.ordinal < table.parameterCount) :
    (Variable.parameter symbol.ordinal).StoredAt table (.argument slot) := by
  refine ⟨inside, ?_⟩
  unfold SlotTable.parameterSlot at found
  split at found
  · cases found
  · by_cases small : symbol.ordinal + (if table.hasReceiver then 1 else 0) < 256
    · rw [if_pos small] at found
      cases found
      exact Nat.mod_eq_of_lt small
    · rw [if_neg small] at found
      cases found

theorem SimplePlace.storedAt (evaluator : Evaluator) (order : UpdateOrder)
    (found : SimplePlace outer origin finished depth target place)
    (isTarget : target.IsTarget arrays finished.slots.parameterCount callable) :
    ∃ variableOf : Variable, variableOf.StoredAt finished.slots place
      ∧ (∀ operand, evaluator.assign order operand target = (do
        let result ← operand
        .write variableOf result
        return result))
      ∧ ∀ operator operand, evaluator.update order operator operand target
        = Evaluator.updateVariable variableOf operator operand := by
  cases found with
  | parameter found => exact ⟨_, storedAt_parameter found isTarget, fun _ => rfl, fun _ _ => rfl⟩
  | localVariable found => exact ⟨.localVariable _, found, fun _ => rfl, fun _ _ => rfl⟩
  | staticMember => exact isTarget.elim

end Compile

/-! ## Expressions and statements -/

/-- What is true of the outcome of every statement. -/
def Flow.IsShared : Flow -> Prop
  | .next => True
  | .leave value => value.isShared = true

namespace Situation

/-- An evaluator that computes what a body means in a situation. -/
structure Understands (situation : Situation) (surroundings : Surroundings) (origin : Catalog)
    (finished : Body) (callable : MethodSymbol -> Prop) (evaluator : Evaluator) : Prop where
  pool : situation.method.pool = finished.emitter.pool
  table : situation.table = finished.slots
  separate : finished.slots.Separate
  typeOf : evaluator.typeOf = origin.denoted?
  /-- The instruction that calls a callable method follows the meaning of the
  call. -/
  calls : ∀ (method : MethodSymbol) (depth count : Nat) (target : CallTarget)
    (code : MarkedCode) (values : List Value), callable method ->
      Compile.Obtains surroundings origin depth finished
        (Compile.callTarget surroundings false method count) target ->
      Compile.takesReceiver target = false ->
      Compile.Calls finished.emitter.pool target count.toUInt8 code -> count < 256 ->
      values.length = count -> (∀ value, value ∈ values -> Shared value) ->
        situation.Simulates evaluator.rounds values.reverse code
          (Perform.called (evaluator.call method values)) Shared
          (Passage.keeping method.returnsValue)

variable {situation : Situation} {rounds : Nat}

theorem Simulates.produced (isProduced : produces = true)
    (simulates : situation.Simulates rounds [] code action Shared fun value => .on [value]) :
    situation.Simulates rounds [] code action Shared (Passage.keeping produces) := by
  subst isProduced
  exact simulates

section

variable (situation : Situation) (callable : MethodSymbol -> Prop)

/-- The expressions that an evaluation in a situation knows. -/
abbrev Knows (operation : Operation) : Prop :=
  operation.Computes situation.heap.SharesItems situation.table.parameterCount callable

abbrev KnowsAll (operations : List Operation) : Prop :=
  Operation.AllCompute situation.heap.SharesItems situation.table.parameterCount callable operations

abbrev KnowsStatement (operation : Operation) : Prop :=
  operation.ComputesStatement situation.heap.SharesItems situation.table.parameterCount callable

end

/-- What it means for the code of a task to follow the evaluation of its part
of the tree.  Tasks that the evaluation does not know are left open. -/
def Follows (situation : Situation) (callable : MethodSymbol -> Prop) (evaluator : Evaluator) :
    Compile.Task -> MarkedCode -> Prop
  | .value use operation, code => situation.Knows callable operation ->
      (use = .kept -> operation.producesValue = true) ->
        situation.Simulates evaluator.rounds [] code (evaluator.perform .readFirst operation) Shared
          (Passage.keeping (use = .kept))
  | .shape operation, code => situation.Knows callable operation ->
      situation.Simulates evaluator.rounds [] code (evaluator.perform .readFirst operation) Shared
        (Passage.keeping operation.producesValue)
  | .values operations, code => situation.KnowsAll callable operations ->
      situation.Simulates evaluator.rounds [] code (evaluator.performAll .readFirst operations)
        (AllShared operations.length) fun values => .on values.reverse
  | .items position operations, code => ∀ ref : ArrayRef,
      situation.heap.SharesItems -> situation.KnowsAll callable operations ->
        situation.Simulates evaluator.rounds [.array ref] code
          (evaluator.fill .readFirst ref position operations) (fun _ => True)
          fun _ => .on [.array ref]
  | .store use target value, code => ∀ info : Info,
      situation.Knows callable (.assignment info target value) ->
        situation.Simulates evaluator.rounds [] code
          (evaluator.perform .readFirst (.assignment info target value)) Shared
          (Passage.keeping (use = .kept))
  | .update use operator target value, code => ∀ info : Info,
      situation.Knows callable (.compoundAssignment info operator target value) ->
        situation.Simulates evaluator.rounds [] code
          (evaluator.perform .readFirst (.compoundAssignment info operator target value)) Shared
          (Passage.keeping (use = .kept))
  | .spills operations slots, code => slots.length = operations.length
      ∧ (situation.KnowsAll callable operations ->
        situation.Spills evaluator.rounds slots code (evaluator.performAll .readFirst operations))
  | .statement returnsValue operation, code => returnsValue = evaluator.returnsValue ->
      situation.KnowsStatement callable operation ->
        situation.Simulates evaluator.rounds [] code (evaluator.act .readFirst operation)
          Flow.IsShared Flow.passage
  | .statements returnsValue operations, code => returnsValue = evaluator.returnsValue ->
      Operation.AllComputeStatements situation.heap.SharesItems
        situation.table.parameterCount callable operations ->
        situation.Simulates evaluator.rounds [] code (evaluator.actAll .readFirst operations)
          Flow.IsShared Flow.passage
  | .body returnsValue operation, code => returnsValue = evaluator.returnsValue ->
      situation.KnowsStatement callable operation ->
        situation.Simulates evaluator.rounds [] code (evaluator.performBody .readFirst operation)
          Shared .left
  | _, _ => True

section

variable {outer : Surroundings} {origin : Catalog} {finished : Body}
  {callable : MethodSymbol -> Prop} {evaluator : Evaluator} {depth : Nat}
  {operation operand condition whenTrue whenFalse head target value : Operation}
  {code first second third store : MarkedCode} {info : Info} {operator : BinaryOperator}
  {tail : List Operation} {use : ValueUse} {place : StorePlace} {symbol : LocalSymbol}
  {slot : UInt16} {returnsValue : Bool}

/-! ### Cases of expressions -/

theorem Follows.dropped (shape : situation.Follows callable evaluator (.shape operation) code)
    (produces : operation.producesValue = true) :
    situation.Follows callable evaluator (.value .discarded operation)
      (code ++ MarkedCode.pop) := by
  intro computes _
  have pushed := shape computes
  rw [produces] at pushed
  rw [← bind_pure (evaluator.perform .readFirst operation)]
  exact .bind pushed fun _ => .pop

theorem Follows.literal
    (understands : situation.Understands outer origin finished callable evaluator)
    {literal : Literal} (isLiteral : info.literal = some literal)
    (loads : literal.Loads finished.emitter.pool code) :
    situation.Follows callable evaluator (.shape (.literal info)) code := by
  rintro ⟨produces, exact⟩
  rw [isLiteral] at exact
  obtain ⟨value, isValue, pushes⟩ := Simulates.literal (understands.pool ▸ loads) exact
  have meant : evaluator.value (.literal info) = pure value := by
    simp only [Evaluator.value, isLiteral, Option.bind_eq_bind, Option.bind_some, isValue]
  rw [perform, meant]
  exact .produced produces pushes

theorem Follows.binary (onLeft : situation.Follows callable evaluator (.value .kept left) first)
    (onRight : situation.Follows callable evaluator (.value .kept right) second)
    (operates : Compile.Operates operator.opcodes third) :
    situation.Follows callable evaluator (.shape (.binary info operator left right))
      (first ++ (second ++ third)) := by
  rintro ⟨produces, ⟨leftProduces, leftComputes⟩, rightProduces, rightComputes⟩
  refine .produced produces ?_
  refine .bind (onLeft leftComputes fun _ => leftProduces) fun leftValue _ => ?_
  refine .bind (.above (onRight rightComputes fun _ => rightProduces) [leftValue])
    fun rightValue _ => ?_
  exact .binary operator leftValue rightValue operates

theorem Follows.unary {operator : UnaryOperator}
    (inner : situation.Follows callable evaluator (.value .kept operand) first)
    (operates : Compile.Operates operator.opcodes second) :
    situation.Follows callable evaluator (.shape (.unary info operator operand))
      (first ++ second) := by
  rintro ⟨produces, operandProduces, operandComputes⟩
  refine .produced produces ?_
  refine .bind (inner operandComputes fun _ => operandProduces) fun value good => ?_
  exact .unary operator good operates

theorem Follows.conversion
    (understands : situation.Understands outer origin finished callable evaluator)
    {source target : TypeHash} (targetFound : Compile.Obtains outer origin depth finished
      (Compile.staticType (.conversion info operand)) target)
    (sourceFound : Compile.Obtains outer origin depth finished (Compile.staticType operand) source)
    (inner : situation.Follows callable evaluator (.value .kept operand) first)
    (converts : Compile.Converts source target second) :
    situation.Follows callable evaluator (.shape (.conversion info operand)) (first ++ second) := by
  rintro ⟨produces, operandProduces, operandComputes⟩
  refine .produced produces ?_
  refine .bind (inner operandComputes fun _ => operandProduces) fun value good => ?_
  exact .converts converts (sourceFound.kindOf understands.typeOf)
    (targetFound.kindOf understands.typeOf) good

theorem Follows.conditional (fits : (first ++ Code.branch second third).Fits)
    (test : situation.Follows callable evaluator (.value .kept condition) first)
    (onTrue : situation.Follows callable evaluator (.value .kept whenTrue) second)
    (onFalse : situation.Follows callable evaluator (.value .kept whenFalse) third) :
    situation.Follows callable evaluator
      (.shape (.conditional info condition whenTrue (some whenFalse)))
      (first ++ .branch second third) := by
  rintro ⟨produces, ⟨conditionProduces, conditionComputes⟩, ⟨trueProduces, trueComputes⟩,
    falseProduces, falseComputes⟩
  refine .produced produces ?_
  refine .bind (test conditionComputes fun _ => conditionProduces) fun value _ => ?_
  exact .branch fits.2 (onTrue trueComputes fun _ => trueProduces)
    (onFalse falseComputes fun _ => falseProduces)

theorem Follows.call (understands : situation.Understands outer origin finished callable evaluator)
    {method : MethodSymbol} {target : CallTarget}
    (found : Compile.Obtains outer origin depth finished
      (Compile.callTarget outer receiver.isSome method arguments.length) target)
    (without : Compile.takesReceiver target = false) (few : arguments.length < 256)
    (operands : situation.Follows callable evaluator (.values arguments) first)
    (calls : Compile.Calls finished.emitter.pool target arguments.length.toUInt8 second) :
    situation.Follows callable evaluator (.shape (.invocation info receiver method arguments))
      (first ++ second) := by
  intro computes
  cases receiver with
  | some => exact computes.elim
  | none =>
    obtain ⟨produces, isCallable, allCompute⟩ := computes
    rw [Operation.producesValue, Operation.info, produces]
    refine .bind (operands allCompute) ?_
    rintro values ⟨count, shared⟩
    exact understands.calls method depth arguments.length target second values isCallable found
      without calls few count shared

theorem Follows.moreValues
    (headValue : situation.Follows callable evaluator (.value .kept head) first)
    (tailValues : situation.Follows callable evaluator (.values tail) second) :
    situation.Follows callable evaluator (.values (head :: tail)) (first ++ second) := by
  rintro ⟨⟨produces, computes⟩, tailComputes⟩
  refine .bind (headValue computes fun _ => produces) fun value good => ?_
  refine .answering (.above (tailValues tailComputes) [value]) (value :: ·) ?_
  rintro _ ⟨count, shared⟩
  refine ⟨⟨congrArg (· + 1) count, ?_⟩, congrArg Passage.on List.reverse_cons.symm⟩
  exact fun other member => (List.mem_cons.mp member).elim (· ▸ good) (shared other)

/-! ### Cases of assignments -/

variable (understands : situation.Understands outer origin finished callable evaluator)

include understands

theorem Follows.storeSimple (found : Compile.SimplePlace outer origin finished depth target place)
    (operand : situation.Follows callable evaluator (.value .kept value) first)
    (stores : place.StoreCode finished.emitter.pool store) :
    situation.Follows callable evaluator (.store use target value)
      (first ++ keeping use store) := by
  rintro _ ⟨_, isTarget, produces, computes⟩
  rw [understands.table] at isTarget
  obtain ⟨_, storedAt, assigns, _⟩ := found.storedAt evaluator .readFirst isTarget
  rw [perform, assigns]
  refine .bind (operand computes fun _ => produces) fun result good => ?_
  rw [← understands.table] at storedAt
  exact .keeping (understands.table ▸ understands.separate) use storedAt stores good

theorem Follows.updateSimple {load operation : MarkedCode}
    (found : Compile.SimplePlace outer origin finished depth target place)
    (loads : place.LoadCode finished.emitter.pool load)
    (operand : situation.Follows callable evaluator (.value .kept value) first)
    (operates : Compile.Operates operator.opcodes operation)
    (stores : place.StoreCode finished.emitter.pool store) :
    situation.Follows callable evaluator (.update use operator target value)
      (load ++ (first ++ (operation ++ keeping use store))) := by
  rintro _ ⟨_, isTarget, produces, computes⟩
  rw [understands.table] at isTarget
  obtain ⟨_, storedAt, _, updates⟩ := found.storedAt evaluator .readFirst isTarget
  rw [← understands.table] at storedAt
  rw [perform, updates]
  refine .bind (.load _ storedAt loads) fun old _ => ?_
  refine .bind (.above (operand computes fun _ => produces) [old]) fun new _ => ?_
  refine .bind (.binary operator old new operates) fun result good => ?_
  exact .keeping (understands.table ▸ understands.separate) use storedAt stores good

/-! ### Cases of statements -/

variable (found : finished.slots.locals[symbol.id]? = some slot)

include found

theorem Simulates.start {value : Value} (shared : Shared value) :
    situation.Simulates rounds [value] (setLocal slot) (do
        write (.localVariable symbol.id) value
        return .next) Flow.IsShared Flow.passage := by
  have storedAt : (Variable.localVariable symbol.id).StoredAt situation.table
      (.localVariable slot) := understands.table ▸ found
  have isStore : (StorePlace.localVariable slot).StoreCode finished.emitter.pool
      (setLocal slot) := rfl
  have stores : situation.Simulates rounds [value] _ _ (fun _ => True) fun _ => .on [] :=
    .store (understands.table ▸ understands.separate) storedAt isStore shared
  exact stores.answering (fun _ => Flow.next) fun _ _ => ⟨trivial, rfl⟩

theorem Follows.declaration
    (start : situation.Follows callable evaluator (.value .kept initializer) code) :
    situation.Follows callable evaluator
      (.statement returnsValue (.declaration info symbol (some initializer)))
      (code ++ MarkedCode.setLocal slot) := by
  rintro _ ⟨produces, computes⟩
  exact .bind (start computes fun _ => produces) fun _ good =>
    .start understands found good

theorem Follows.defaultDeclaration {type : TypeHash}
    (isType : Compile.Obtains outer origin depth finished (Compile.resolve symbol.type) type)
    (present : finished.emitter.pool.Has index.toNat (.hash type)) :
    situation.Follows callable evaluator (.statement returnsValue (.declaration info symbol none))
      (.single (.withWord .pushDefault index rfl) ++ MarkedCode.setLocal slot) := by
  intro _ _
  have denoted : evaluator.typeOf symbol.type = some type := by
    rw [understands.typeOf]
    exact isType.denoted
  have pushes : situation.Simulates evaluator.rounds []
      (.single (.withWord .pushDefault index rfl)) (pure (Catalog.defaultValue type)) Shared
      fun value => .on [value] := by
    refine .push (Catalog.defaultValue_shared type) fun frame heap isMethod placed => ?_
    refine Execute.instruction_pushDefault placed.single ?_
    rw [isMethod, understands.pool]
    exact present.hash
  have starts : evaluator.performStart .readFirst symbol none
      = pure (Catalog.defaultValue type) := by
    simp only [Evaluator.performStart, start, denoted]
    rfl
  rw [Evaluator.act, starts]
  exact pushes.bind fun _ => .start understands found

omit found understands

theorem Follows.returnValue
    (operand : situation.Follows callable evaluator (.value .kept value) code) :
    situation.Follows callable evaluator (.statement true (.returnStatement info (some value)))
      (code ++ plain .returnValue rfl) := by
  rintro returns ⟨produces, computes⟩
  rw [Evaluator.act, ← returns]
  exact .bind (operand computes fun _ => produces) fun _ good =>
    .returnValue good rfl

theorem Follows.returnDropped
    (operand : situation.Follows callable evaluator (.value .discarded value) code) :
    situation.Follows callable evaluator (.statement false (.returnStatement info (some value)))
      (code ++ plain .returnVoid rfl) := by
  rintro returns ⟨produces, computes⟩
  rw [Evaluator.act, ← returns]
  exact .bind (operand computes fun _ => produces) fun _ _ =>
    .returnVoid (Eq.refl true) rfl

theorem Follows.whileLoop (fits : (Code.loop first second : MarkedCode).Fits)
    (test : situation.Follows callable evaluator (.value .kept condition) first)
    (repeated : situation.Follows callable evaluator (.statement returnsValue body) second) :
    situation.Follows callable evaluator (.statement returnsValue (.whileLoop info condition body))
      (.loop first second) := by
  rintro returns ⟨⟨produces, computes⟩, bodyComputes⟩
  exact .loop fits trivial (test computes fun _ => produces) (repeated returns bodyComputes)

theorem Follows.onlyIf (fits : (first ++ Code.guarded second).Fits)
    (test : situation.Follows callable evaluator (.value .kept condition) first)
    (onTrue : situation.Follows callable evaluator (.statement returnsValue whenTrue) second) :
    situation.Follows callable evaluator
      (.statement returnsValue (.conditional info condition whenTrue none))
      (first ++ .guarded second) := by
  rintro returns ⟨untyped, ⟨produces, computes⟩, trueComputes⟩
  simp only [Evaluator.act, untyped]
  exact .bind (test computes fun _ => produces) fun _ _ =>
    .guarded fits.2 trivial (onTrue returns trueComputes)

theorem Follows.ifElse
    (fits : (first ++ Code.branch second third).Fits) (untyped : info.type = none)
    (test : situation.Follows callable evaluator (.value .kept condition) first)
    (onTrue : situation.Follows callable evaluator (.statement returnsValue whenTrue) second)
    (onFalse : situation.Follows callable evaluator (.statement returnsValue whenFalse) third) :
    situation.Follows callable evaluator
      (.statement returnsValue (.conditional info condition whenTrue (some whenFalse)))
      (first ++ .branch second third) := by
  intro returns allComputes
  simp only [Operation.ComputesStatement, untyped] at allComputes
  obtain ⟨⟨produces, computes⟩, trueComputes, falseComputes⟩ := allComputes
  simp only [Evaluator.act, untyped]
  exact .bind (test computes fun _ => produces) fun _ _ =>
    .branch fits.2 (onTrue returns trueComputes) (onFalse returns falseComputes)

theorem Follows.evaluated (isExpression : Compile.isStatement operation = false)
    (inner : situation.Follows callable evaluator (.value .discarded operation) code) :
    situation.Follows callable evaluator (.statement returnsValue operation) code := by
  intro _ computes
  rw [evaluator.act_of_expression _ isExpression]
  exact .answering (inner (Operation.computes_of_expression isExpression computes) nofun)
    (fun _ => Flow.next) fun _ _ => ⟨trivial, rfl⟩

theorem Follows.moreStatements
    (headCode : situation.Follows callable evaluator (.statement returnsValue head) first)
    (tailCode : situation.Follows callable evaluator (.statements returnsValue tail) second) :
    situation.Follows callable evaluator (.statements returnsValue (head :: tail))
      (first ++ second) := by
  rintro returns ⟨headComputes, tailComputes⟩
  exact (headCode returns headComputes).sequence (tailCode returns tailComputes)
    fun value good => ⟨.leave value, rfl, good, rfl⟩

/-! ### Cases of bodies -/

theorem Follows.statementBody (asStatement : Compile.isStatement operation = true)
    (inner : situation.Follows callable evaluator (.statement returnsValue operation) code) :
    situation.Follows callable evaluator (.body returnsValue operation)
      (code ++ plain .returnVoid rfl) := by
  intro returns computes
  rw [performBody, if_pos asStatement]
  exact (inner returns computes).sequence (.returnVoid (Eq.refl true) rfl)
    fun value good => ⟨value, rfl, good, rfl⟩

theorem Follows.valueBody (asExpression : Compile.isStatement operation = false)
    (produces : operation.producesValue = true)
    (inner : situation.Follows callable evaluator (.value .kept operation) code) :
    situation.Follows callable evaluator (.body true operation)
      (code ++ plain .returnValue rfl) := by
  intro returns computes
  rw [performBody, asExpression, ← returns]
  exact .bind (inner (Operation.computes_of_expression asExpression computes) fun _ => produces)
    fun _ good => .returnValue good rfl

theorem Follows.effectBody (asExpression : Compile.isStatement operation = false)
    (inner : situation.Follows callable evaluator (.value .discarded operation) code) :
    situation.Follows callable evaluator (.body false operation)
      (code ++ plain .returnVoid rfl) := by
  intro returns computes
  rw [performBody, asExpression, ← returns]
  refine .bind (inner (Operation.computes_of_expression asExpression computes) ?_)
    fun _ _ => .returnVoid (Eq.refl true) rfl
  intro isKept
  cases isKept

end

end Situation
end OpMachine
