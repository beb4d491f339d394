import OpMachine.Proofs.TranslationSteps

namespace OpMachine
namespace Compile

/-!
# The compiler emits what the translation relation says

The proof follows the recursion of the compiler clause by clause, and shows on
the way that each clause is put together from the steps of a compilation.  What
it says about the code assumes only that compiling a called method lets the
catalog grow; whatever else such a compilation does is recorded as an answer.
-/

variable {site : Site} {action : Compile Unit} {value : Operation}

abbrev Site.Translates (site : Site) (finished : Body) (task : Task) (code : MarkedCode) : Prop :=
  Compile.Translates site.outer site.origin finished site.depth site.low task code

/-- A computation emits the code of a part of a tree. -/
abbrev Compiles (site : Site) (action : Compile Unit) (task : Task) : Prop :=
  Emits site action fun _ finished code => site.Translates finished task code

theorem Emits.atLine (emits : Emits site action Result) :
    Emits site (emit (.setLine line) >>= fun _ => action) Result :=
  .asking ⟨.emit (.setLine line), fun _ => quiet_setLine line⟩ fun _ => emits.mono fun _ _ _ known _ => known

/-- The shape of an expression, at its line and with its value dropped when it
is not wanted. -/
theorem compiles_expression (operation : Operation) (use : ValueUse)
    (shape : Compiles site action (.shape operation)) :
    Compiles site (expression operation.info use action)
      (.value use operation) := by
  refine .atLine (.marked (.expression use operation) ?_)
  cases use with
  | kept =>
    refine (shape.answering fun _ => ()).mono ?_
    rintro _ finished _ ⟨_, _, translates⟩
    exact .kept translates
  | discarded =>
    by_cases produces : operation.info.producesValue = true
    · simp only [settle, if_pos produces]
      refine .bind shape fun _ => .mono (.plain .pop rfl rfl) ?_
      rintro _ finished _ rfl earlier translates
      exact .dropped translates produces
    · have nothing : settle .discarded operation.info = pure () := if_neg produces
      simp only [nothing]
      refine (shape.answering fun _ => ()).mono ?_
      rintro _ _ _ ⟨_, _, translates⟩
      exact .droppedNothing translates (Bool.eq_false_iff.mpr produces)

/-! ## Parts of expressions -/

variable (builder : TypeHash)

theorem compiles_newText (parts : List InterpolationPart) :
    Emits site (newText builder parts) fun _ finished code =>
      ∃ constructor : MethodEntry, ∃ first second, ∃ (typeIndex : UInt16) (constructorIndex : UInt16),
          site.Obtains finished (textConstructor builder) constructor
            ∧ Emit.Loads finished.emitter.pool (.int (.ofNat (literalLength parts))) first
            ∧ Emit.Loads finished.emitter.pool (.int (.ofNat (holeCount parts))) second
            ∧ finished.emitter.pool.Has typeIndex.toNat (.hash builder)
            ∧ finished.emitter.pool.Has constructorIndex.toNat (.hash constructor.hash)
            ∧ code = (first ++ (second ++ .single (.new typeIndex constructorIndex 2))
              : MarkedCode) := by
  have shape : newText builder parts = (do
      let constructor ← textConstructor builder
      sizeOperand (literalLength parts) "interpolated text too long"
      sizeOperand (holeCount parts) "interpolated text too long"
      emit (.new builder constructor.hash 2)) := by
    unfold newText textConstructor
    rw [bind_assoc]
  rw [shape]
  refine .asking (asked_asks.bind asked_asks.catalog fun _ => asked_asks.selectOverload _ _ _ _)
    fun constructor => ?_
  refine .bind (.sizeOperand _ _) fun _ => .bind (.sizeOperand _ _) fun _ => ?_
  refine .mono (.written (.new builder constructor.hash 2) trivial) ?_
  rintro _ _ _ ⟨typeIndex, constructorIndex, type, creates, rfl⟩ second holes first lengths obtained
  exact ⟨constructor, first, second, typeIndex, constructorIndex, obtained, lengths.2, holes.2, type,
    creates, rfl⟩

theorem compiles_takeText : Emits site (takeText builder) fun _ finished code =>
      ∃ (take : MethodEntry) (index : UInt16), site.Obtains finished
            (builderMethod builder SystemTypes.takeTextName []) take
          ∧ finished.emitter.pool.Has index.toNat (.hash take.hash)
          ∧ code = (.single (.withCount .callMethod index 0 rfl) : MarkedCode) := by
  refine .asking (asked_asks.builderMethod _ _ _) fun take => ?_
  refine .mono (.written (.call .callMethod take.hash 0 rfl) rfl) ?_
  rintro _ _ _ ⟨index, present, rfl⟩ obtained
  exact ⟨take, index, obtained, present, rfl⟩

theorem compiles_appendText (content : String) :
    Emits site (appendText builder content) fun _ finished code =>
      ∃ (append : MethodEntry) (index : UInt16), ∃ first,
        site.Obtains finished
            (builderMethod builder SystemTypes.appendLiteralName [.string]) append
          ∧ Emit.Loads finished.emitter.pool (.string content) first
          ∧ finished.emitter.pool.Has index.toNat (.hash append.hash)
          ∧ code = (MarkedCode.dup ++ (first ++ .single (.withCount .callMethod index 1 rfl))
            : MarkedCode) := by
  refine .asking (asked_asks.builderMethod _ _ _) fun append => ?_
  refine .bind (.plain .dup rfl rfl) fun _ => .bind (.written (.constant _) trivial) fun _ => ?_
  refine .mono (.written (.call .callMethod append.hash 1 rfl) rfl) ?_
  rintro _ _ _ ⟨index, present, rfl⟩ first loads _ rfl obtained
  exact ⟨append, index, first, obtained, loads, present, rfl⟩

/-- An update of a place that needs no receiver. -/
theorem compiles_updateValue (place : StorePlace) (operator : BinaryOperator)
    (onValue : Compiles site action (.value .kept value)) (use : ValueUse) :
    Emits site (updateValue place operator action use)
      fun _ finished code => ∀ {target : Operation},
        SimplePlace site.outer site.origin finished site.depth target place ->
          site.Translates finished (.update use operator target value) code := by
  refine .bind (.load place) fun _ => .bind onValue fun _ =>
    .bind (.opcodes _ (BinaryOperator.plain_opcodes operator)) fun _ =>
      .mono (.storeValue place use) ?_
  rintro _ _ _ ⟨_, stores, rfl⟩ _ operates _ operand _ loads _ found
  exact .updateSimple found loads operand operates stores

/-- An update of a place whose receiver is in temporaries. -/
theorem Emits.updateAbove (place : StorePlace) (receiver : List UInt16) (operator : BinaryOperator)
    (onValue : Compiles site action (.value .kept value)) (use : ValueUse) :
    Emits site (updateAbove place receiver operator action use)
      fun _ finished code =>
        ∃ load first operation store second, place.LoadCode finished.emitter.pool load
            ∧ site.Translates finished (.value .kept value) first
            ∧ Operates operator.opcodes operation
            ∧ place.StoreCode finished.emitter.pool store
            ∧ StoresAbove finished site.low store use second
            ∧ code = MarkedCode.reload receiver ++ (MarkedCode.reload receiver
              ++ (load ++ (first ++ (operation ++ second)))) := by
  refine .bind (.reload receiver) fun _ => .bind (.reload receiver) fun _ =>
    .bind (.load place) fun _ => .bind onValue fun _ =>
      .bind (.opcodes _ (BinaryOperator.plain_opcodes operator)) fun _ =>
        .mono (.storeAbove place use) ?_
  rintro _ _ second ⟨store, stores, above⟩ operation operates first operand load loads _ rfl
    _ rfl
  exact ⟨load, first, operation, store, second, loads, operand, operates, stores, above, rfl⟩

/-! ## Expressions -/

mutual

theorem compiles_code {site : Site} (use : ValueUse) (operation : Operation)
    (knows : operation.Knows site.Known) :
    Compiles site (code site.outer use operation) (.value use operation) := by
  have shaped {action : Compile Unit} : Compiles site action (.shape operation) ->
        Compiles site (expression operation.info use action)
          (.value use operation) := compiles_expression operation use
  cases operation with try rw [code]
  | literal info =>
    refine shaped (.mono (.literal info) ?_)
    rintro _ finished _ ⟨value, isLiteral, loads⟩
    exact .literal isLiteral loads
  | parameter _ symbol =>
    refine shaped ?_
    refine .asking (.parameterSlot symbol) fun slot => ?_
    refine .mono (.load (.argument slot)) ?_
    rintro _ finished _ rfl obtained
    exact .parameter obtained.parameterSlot
  | localVariable _ symbol =>
    refine shaped ?_
    refine .asking (.localSlot symbol) fun slot => ?_
    refine .mono (.load (.localVariable slot)) ?_
    rintro _ finished _ rfl obtained
    exact .localVariable obtained.localSlot
  | member _ _ receiver symbol =>
    refine shaped ?_
    refine .asking (asked_asks.readableMember symbol) fun access => ?_
    by_cases static : access.isStatic = true
    · simp only [static, if_true]
      refine .mono (.load (.member access)) ?_
      intro _ finished load loads obtained
      exact .staticMember obtained static loads
    · have onInstance := Bool.eq_false_iff.mpr static
      simp only [onInstance, Bool.false_eq_true, if_false]
      refine .bind (compiles_receiverCode symbol.name receiver knows.each) fun _ => ?_
      refine .mono (.load (.member access)) ?_
      rintro _ finished _ loads first ⟨operation, rfl, operand⟩ obtained
      exact .instanceMember obtained onInstance operand loads
  | element _ array indices =>
    refine shaped ?_
    refine .asking (asked_asks.elementRank indices) fun rank => ?_
    refine .bind (compiles_code .kept array knows.child) fun _ =>
      .bind (compiles_codeAll indices knows.each) fun _ => .mono (.load (.element rank)) ?_
    rintro _ finished _ rfl second operands first operand obtained
    obtain ⟨some, few, rfl⟩ := obtained.elementRank
    exact .element some few operand operands
  | binary _ operator left right =>
    refine shaped ?_
    refine .bind (compiles_code .kept left knows.child) fun _ => .bind (compiles_code .kept right knows.child) fun _ =>
        .mono (.opcodes _ (BinaryOperator.plain_opcodes operator)) ?_
    intro _ finished third operates second rightOperand first leftOperand
    exact .binary leftOperand rightOperand operates
  | unary _ operator operand =>
    refine shaped ?_
    refine .bind (compiles_code .kept operand knows.child) fun _ =>
      .mono (.opcodes _ (by cases operator <;> decide)) ?_
    intro _ finished second operates first inner
    exact .unary inner operates
  | conversion _ operand =>
    refine shaped ?_
    refine .asking (asked_asks.staticType _) fun target =>
      .asking (asked_asks.staticType _) fun source => ?_
    refine .bind (compiles_code .kept operand knows.child) fun _ => .mono (.convert source target) ?_
    intro _ finished second converts first inner sourceFound targetFound
    exact .conversion targetFound sourceFound inner converts
  | conditional _ condition whenTrue whenFalse =>
    cases whenFalse with rw [code]
    | some whenFalse =>
      refine shaped ?_
      refine .bind (compiles_code .kept condition knows.child) fun _ =>
        .mono (.branch (compiles_code .kept whenTrue knows.child) (compiles_code .kept whenFalse knows.child)) ?_
      rintro _ finished _ ⟨second, third, rfl, onTrue, onFalse⟩ first test
      exact .conditional test onTrue onFalse
    | none => exact shaped (.throw (.invalidSymbol _ (by decide)) _)
  | invocation _ receiver method arguments =>
    refine shaped ?_
    refine .asking ⟨.callTarget _ method _, fun conservative => quiet_callTarget conservative _ method _⟩ fun target => ?_
    by_cases takes : takesReceiver target = true
    · simp only [takes, if_true]
      refine .bind (compiles_receiverCode method.name receiver knows.each) fun _ =>
        .bind (compiles_codeAll arguments knows.each) fun _ =>
          .asking (asked_asks.argumentCount _) fun count => .mono (.call target count) ?_
      rintro _ finished third calls counted second operands first ⟨_, rfl, operand⟩ obtained
      obtain ⟨few, rfl⟩ := counted.argumentCount
      exact .callOnReceiver obtained takes few operand operands calls
    · have without := Bool.eq_false_iff.mpr takes
      simp only [without, Bool.false_eq_true, if_false]
      refine .bind (compiles_codeAll arguments knows.each) fun _ =>
        .asking (asked_asks.argumentCount _) fun count => .mono (.call target count) ?_
      intro _ finished second calls counted first operands obtained
      obtain ⟨few, rfl⟩ := counted.argumentCount
      exact .call obtained without few operands calls
  | delegateCreation _ target =>
    refine shaped ?_
    refine .mono (.delegate target knows.child) ?_
    rintro _ finished _ ⟨_, index, isFunction, found, rfl⟩
    exact .delegateCreation isFunction found
  | interpolation _ parts =>
    refine shaped ?_
    refine .asking asked_asks.textBuilder fun builder => ?_
    refine .bind (compiles_newText builder parts) fun _ =>
      .bind (compiles_partCode builder parts knows.each) fun _ => (compiles_takeText builder).mono ?_
    rintro _ finished _ ⟨_, _, isTake, takes, rfl⟩ _ appended _ ⟨constructor, first,
      second, typeIndex, constructorIndex, isConstructor, lengths, holes, type, creates, rfl⟩
      isBuilder
    exact .interpolation isBuilder isConstructor lengths holes type creates appended isTake takes
  | arrayCreation info sizes items =>
    have onSizes : Compiles site _ _ := compiles_codeAll sizes knows.each
    cases items with rw [code]
    | none =>
      refine shaped (.asking (asked_asks.arrayType info) fun ⟨element, rank⟩ => ?_)
      have sized : Emits site (do
            codeAll site.outer sizes
            newArray element rank)
          fun _ finished code => sizes.length = rank ->
            site.Obtains finished (arrayType info) (element, rank) ->
              site.Translates finished (.shape (.arrayCreation info sizes none)) code := by
        refine .bind onSizes fun _ => .mono (.written (.call .newArray element _ rfl) rfl) ?_
        rintro _ finished _ ⟨index, type, rfl⟩ first operands same found
        subst same
        exact .newArray found operands type
      refine .mono (.unless (.invalidSymbol _ (by decide)) (.unless (.miscounted _ _) sized)) ?_
      exact fun _ _ _ known => known.2.2 (Decidable.not_not.mp known.2.1)
    | some items =>
      refine shaped (.asking (asked_asks.arrayType info) fun ⟨element, rank⟩ => ?_)
      have onItems : Compiles site _ _ := compiles_itemCode 0 items knows.each
      have sized : Emits site (do
            codeAll site.outer sizes
            newArray element rank
            itemCode site.outer 0 items)
          fun _ finished code => sizes.length = rank -> rank = 1 ->
            site.Obtains finished (arrayType info) (element, rank) ->
              site.Translates finished (.shape (.arrayCreation info sizes (some items))) code := by
        refine .bind onSizes fun _ => .bind (.written (.call .newArray element _ rfl) rfl) fun _ =>
          onItems.mono ?_
        rintro _ finished second stored _ ⟨_, type, rfl⟩ first operands same isVector found
        subst isVector
        obtain ⟨size, rfl⟩ := List.length_eq_one_iff.mp same
        exact .newSizedVector found operands type stored
      refine .mono (.unless (.unsupportedShape _) (.ite (fun isEmpty => ?_) fun _ =>
          .mono (.unless (.miscounted _ _) sized)
            fun _ _ _ known => known.2 (Decidable.not_not.mp known.1)))
        fun _ _ _ known => known.2 (Decidable.not_not.mp known.1)
      obtain rfl := List.isEmpty_iff.mp isEmpty
      refine .bind (.sizeOperand _ _) fun _ =>
        .bind (.written (.call .newArray element _ rfl) rfl) fun _ => onItems.mono ?_
      rintro _ finished second stored _ ⟨index, type, rfl⟩ first length isVector found
      subst isVector
      exact .newVector found length type stored
  | objectCreation _ constructor arguments initializer =>
    refine shaped ?_
    refine .asking (asked_asks.constructorOf constructor) fun ⟨owner, hash⟩ => ?_
    refine .bind (compiles_codeAll arguments knows.each) fun _ =>
      .asking (asked_asks.argumentCount _) fun count =>
        .bind (.written (.new owner hash count) trivial) fun _ =>
          .mono (.withImplicitReceiver (compiles_initializerCode initializer knows.each)) ?_
    rintro _ finished _ initializes _ ⟨_, _, type, creates, rfl⟩ counted first operands found
    obtain ⟨few, rfl⟩ := counted.argumentCount
    exact .objectCreation found few operands type creates initializes
  | assignment info target value =>
    refine .atLine (.marked (.expression use (.assignment info target value)) ?_)
    refine (compiles_storeCode (compiles_code .kept value knows.child) use target knows.child).mono ?_
    exact fun _ _ _ => .assignment
  | compoundAssignment info operator target value =>
    refine .atLine (.marked (.expression use (.compoundAssignment info operator target value)) ?_)
    refine (compiles_updateCode operator (compiles_code .kept value knows.child) use target
      knows.child).mono ?_
    exact fun _ _ _ => .compoundAssignment
  | parenthesized info operand =>
    refine .atLine (.marked (.expression use (.parenthesized info operand)) ?_)
    refine (compiles_code use operand knows.child).mono ?_
    exact fun _ _ _ => .parenthesized
  | _ => exact shaped (.throw (.unsupportedShape _) _)

theorem compiles_codeAll {site : Site} : ∀ operations : List Operation,
    (∀ operation, operation ∈ operations -> operation.Knows site.Known) ->
      Compiles site (codeAll site.outer operations) (.values operations)
  | [], _ => by
      rw [codeAll]
      exact .mono (.pure ()) fun _ _ _ empty => empty.2 ▸ .noValues
  | head :: tail, knows => by
      rw [codeAll]
      obtain ⟨here, later⟩ := List.forall_mem_cons.mp knows
      refine .bind (compiles_code .kept head here) fun _ => (compiles_codeAll tail later).mono ?_
      intro _ finished second tailValues first headValue
      exact .moreValues headValue tailValues

theorem compiles_receiverCode {site : Site} (member : String) :
    ∀ receiver : Option Operation,
      (∀ operation, receiver = some operation -> operation.Knows site.Known) ->
      Emits site (receiverCode site.outer member receiver)
        fun _ finished code => ∃ operation, receiver = some operation
          ∧ site.Translates finished (.value .kept operation) code
  | none, _ => by
      rw [receiverCode]
      exact .throw (.missingReceiver member) _
  | some operation, knows => by
      rw [receiverCode]
      refine (compiles_code .kept operation (knows operation rfl)).mono ?_
      exact fun _ finished code operand => ⟨operation, rfl, operand⟩

theorem compiles_itemCode {site : Site} (position : Nat) : ∀ items : List Operation,
    (∀ item, item ∈ items -> item.Knows site.Known) ->
      Compiles site (itemCode site.outer position items) (.items position items)
  | [], _ => by
      rw [itemCode]
      exact .mono (.pure ()) fun _ _ _ empty => empty.2 ▸ .noItems
  | item :: rest, knows => by
      rw [itemCode]
      obtain ⟨here, later⟩ := List.forall_mem_cons.mp knows
      refine .bind (.plain .dup rfl rfl) fun _ => .bind (.sizeOperand _ _) fun _ =>
        .bind (compiles_code .kept item here) fun _ => .bind (.store (.element 1)) fun _ =>
          (compiles_itemCode (position + 1) rest later).mono ?_
      rintro _ finished third later _ rfl second operand first index _ rfl
      exact .moreItems index operand later

theorem compiles_partCode {site : Site} (builder : TypeHash) :
    ∀ parts : List InterpolationPart,
      (∀ operation, operation ∈ parts.flatMap InterpolationPart.operations ->
        operation.Knows site.Known) ->
      Compiles site (partCode site.outer builder parts) (.parts builder parts)
  | [], _ => by
      rw [partCode]
      exact .mono (.pure ()) fun _ _ _ empty => empty.2 ▸ .noParts
  | .text content :: rest, knows => by
      rw [partCode]
      refine .bind (compiles_appendText builder content) fun _ =>
        (compiles_partCode builder rest knows).mono ?_
      rintro _ finished second later _ ⟨append, index, first, found, text, appends, rfl⟩
      exact .textPart found text appends later
  | .hole value arguments :: rest, knows => by
      rw [partCode]
      obtain ⟨here, later⟩ := List.forall_mem_append.mp knows
      obtain ⟨onValue, onArguments⟩ := List.forall_mem_cons.mp here
      refine .asking (asked_asks.appendHole builder value arguments)
        fun ⟨append, shape, count⟩ => ?_
      refine .bind (.plain .dup rfl rfl) fun _ => .bind (compiles_code .kept value onValue) fun _ =>
          .bind (compiles_alignmentCode arguments onArguments) fun _ => ?_
      cases shape with
      | mk _ format =>
        have onRest : Compiles site _ _ := compiles_partCode builder rest later
        cases format with
        | none =>
          refine .afterNothing (.bind (.written (.call .callMethod append.hash count
            rfl) rfl) fun _ => onRest.mono ?_)
          rintro _ finished fourth later _ ⟨index, appends, rfl⟩ second alignment first operand _
            rfl found
          exact .holePart found operand alignment (.inl ⟨rfl, rfl⟩) appends later
        | some specifier =>
          refine .bind (.written (.constant (.string specifier)) trivial) fun _ =>
            .bind (.written (.call .callMethod append.hash count rfl) rfl) fun _ =>
              onRest.mono ?_
          rintro _ _ _ later _ ⟨_, appends, rfl⟩ _ text _ alignment _ operand _ rfl found
          exact .holePart found operand alignment (.inr ⟨specifier, rfl, text⟩) appends later

theorem compiles_alignmentCode {site : Site} : ∀ arguments : List HoleArgument,
    (∀ operation, operation ∈ arguments.flatMap HoleArgument.operations ->
      operation.Knows site.Known) ->
      Compiles site (alignmentCode site.outer arguments) (.alignments arguments)
  | [], _ => by
      rw [alignmentCode]
      exact .mono (.pure ()) fun _ _ _ empty => empty.2 ▸ .noAlignments
  | .alignment width :: rest, knows => by
      rw [alignmentCode]
      obtain ⟨here, later⟩ := List.forall_mem_cons.mp knows
      refine .bind (compiles_code .kept width here) fun _ =>
        (compiles_alignmentCode rest later).mono ?_
      exact fun _ finished second later first operand => .alignment operand later
  | .format specifier :: rest, knows => by
      rw [alignmentCode]
      refine (compiles_alignmentCode rest knows).mono ?_
      exact fun _ _ _ => .format

theorem compiles_initializerCode {site : Site} (entries : List Operation)
    (knows : ∀ entry, entry ∈ entries -> entry.Knows site.Known) :
    Compiles site (initializerCode site.outer entries) (.entries entries) := by
  cases entries with
  | nil =>
    rw [initializerCode]
    exact .mono (.pure ()) fun _ _ _ empty => empty.2 ▸ .noEntries
  | cons entry rest =>
    obtain ⟨here, later⟩ := List.forall_mem_cons.mp knows
    cases entry with
    | assignment _ target value =>
      rw [initializerCode]
      refine .atLine (.bind (.plain .dup rfl rfl) fun _ =>
        .bind (compiles_storeCode (compiles_code .kept value here.child) .discarded target
          here.child) fun _ => (compiles_initializerCode rest later).mono ?_)
      rintro _ finished second later first store _ rfl
      exact .entry store later
    | _ =>
      simp only [initializerCode]
      exact .atLine (.throw (.unsupportedShape _) _)

theorem compiles_storeCode {site : Site} {value : Operation} {action : Compile Unit}
    (onValue : Compiles site action (.value .kept value)) (use : ValueUse)
    (target : Operation) (knows : target.Knows site.Known) :
    Compiles site (storeCode site.outer action use target)
      (.store use target value) := by
  cases target with simp only [storeCode]
  | parameter _ symbol =>
    refine .asking (.parameterSlot symbol) fun slot => .bind onValue fun _ =>
      .mono (.storeValue (.argument slot) use) ?_
    rintro _ finished _ ⟨store, stores, rfl⟩ first operand found
    exact .storeSimple (.parameter found.parameterSlot) operand stores
  | localVariable _ symbol =>
    refine .asking (.localSlot symbol) fun slot => .bind onValue fun _ =>
      .mono (.storeValue (.localVariable slot) use) ?_
    rintro _ finished _ ⟨store, stores, rfl⟩ first operand found
    exact .storeSimple (.localVariable found.localSlot) operand stores
  | member _ _ receiver symbol =>
    refine .asking (asked_asks.writableMember symbol) fun access =>
      .ite (fun static => ?_) fun notStatic => ?_
    · refine .bind onValue fun _ => .mono (.storeValue (.member access) use) ?_
      rintro _ finished _ ⟨store, stores, rfl⟩ first operand found
      exact .storeSimple (.staticMember found static) operand stores
    · have onInstance := Bool.eq_false_iff.mpr notStatic
      refine .ite (fun implicit => ?_) fun explicit => ?_
      · refine .asking asked_asks.requireImplicitReceiver fun _ => .bind onValue fun _ =>
          .mono (.storeAbove (.member access) use) ?_
        rintro _ finished second ⟨store, stores, above⟩ first operand required found
        exact .storeImplicit found onInstance implicit required.requireImplicitReceiver operand
          stores above
      · refine .bind (compiles_receiverCode symbol.name receiver knows.each) fun _ =>
          .bind onValue fun _ => .mono (.storeAbove (.member access) use) ?_
        rintro _ finished third ⟨store, stores, above⟩ second operand first
          ⟨operation, rfl, object⟩ found
        exact .storeMember found onInstance (Bool.eq_false_iff.mpr explicit) object operand
          stores above
  | element _ array indices =>
    refine .asking (asked_asks.elementRank indices) fun rank =>
      .bind (compiles_code .kept array knows.child) fun _ =>
        .bind (compiles_codeAll indices knows.each) fun _ => .bind onValue fun _ =>
          .mono (.storeAbove (.element rank) use) ?_
    rintro _ finished _ ⟨_, rfl, above⟩ _ operand _ operands _ object found
    obtain ⟨some, few, rfl⟩ := found.elementRank
    exact .storeElement some few object operands operand above
  | parenthesized _ target =>
    refine (compiles_storeCode onValue use target knows.child).mono ?_
    exact fun _ _ _ => .storeParenthesized
  | _ => exact .throw (.unsupportedShape _) _

theorem compiles_updateCode {site : Site} (operator : BinaryOperator) {value : Operation}
    {action : Compile Unit}
    (onValue : Compiles site action (.value .kept value)) (use : ValueUse)
    (target : Operation) (knows : target.Knows site.Known) :
    Compiles site (updateCode site.outer operator action use target)
      (.update use operator target value) := by
  cases target with simp only [updateCode]
  | parameter _ symbol =>
    refine .asking (.parameterSlot symbol) fun slot =>
      (compiles_updateValue (.argument slot) operator onValue use).mono ?_
    intro _ finished code update found
    exact update (.parameter found.parameterSlot)
  | localVariable _ symbol =>
    refine .asking (.localSlot symbol) fun slot =>
      (compiles_updateValue (.localVariable slot) operator onValue use).mono ?_
    intro _ finished code update found
    exact update (.localVariable found.localSlot)
  | member _ _ receiver symbol =>
    refine .asking (asked_asks.writableMember symbol) fun access =>
      .ite (fun static => ?_) fun notStatic => .ite (fun _ => ?_) fun explicit => ?_
    · refine (compiles_updateValue (.member access) operator onValue use).mono ?_
      intro _ finished code update found
      exact update (.staticMember found static)
    · exact .asking asked_asks.requireImplicitReceiver fun _ => .throw (.unsupportedShape _) _
    · refine .bind (compiles_receiverCode symbol.name receiver knows.each) fun _ =>
        .bind_spill fun slot => ((Emits.updateAbove (.member access) [slot] operator
          onValue use).raise _).mono ?_
      rintro _ finished _ known temporary object ⟨_, rfl, onReceiver⟩ found
      obtain ⟨load, first, operation, store, second, loads, operand, operates, stores, above, rfl⟩ :=
        known (Nat.le_succ_of_le temporary.1)
      exact .updateMember found (Bool.eq_false_iff.mpr notStatic)
        (Bool.eq_false_iff.mpr explicit) onReceiver temporary loads operand operates stores above
  | element _ array indices =>
    refine .asking (asked_asks.elementRank indices) fun rank =>
      .bind (compiles_code .kept array knows.child) fun _ => .bind_spill fun slot =>
        .bind (compiles_spillCode indices knows.each) fun slots =>
          ((Emits.updateAbove (.element rank) (slot :: slots) operator onValue use).raise _).mono ?_
    rintro _ finished _ known _ onIndices temporary _ onArray found
    obtain ⟨_, _, _, _, _, rfl, operand, operates, rfl, above, rfl⟩ :=
      known (Nat.le_succ_of_le temporary.1)
    obtain ⟨some, few, rfl⟩ := found.elementRank
    exact .updateElement some few onArray temporary onIndices operand operates above
  | parenthesized _ target =>
    refine (compiles_updateCode operator onValue use target knows.child).mono ?_
    exact fun _ _ _ => .updateParenthesized
  | _ => exact .throw (.unsupportedShape _) _

theorem compiles_spillCode {site : Site} : ∀ operations : List Operation,
    (∀ operation, operation ∈ operations -> operation.Knows site.Known) ->
    Emits site (spillCode site.outer operations) fun slots finished code =>
        site.Translates finished (.spills operations slots) code
  | [], _ => by
      rw [spillCode]
      refine .mono (.pure []) ?_
      rintro _ _ _ ⟨rfl, rfl⟩
      exact .noSpills
  | head :: tail, knows => by
      rw [spillCode]
      obtain ⟨here, later⟩ := List.forall_mem_cons.mp knows
      refine .bind (compiles_code .kept head here) fun _ => .bind_spill fun slot =>
        ((@compiles_spillCode { site with low := slot.toNat + 1 } tail later).answering
          (slot :: ·)).mono ?_
      rintro _ _ _ ⟨_, rfl, later⟩ temporary _ operand
      exact .spill operand temporary later

end

/-! ## Statements -/

theorem compiles_return (returnsValue : Bool) (info : Info) (value : Option Operation)
    (knows : ∀ operation, value = some operation -> operation.Knows site.Known) :
    Compiles site (returnCode site.outer returnsValue value)
      (.statement returnsValue (.returnStatement info value)) := by
  refine .marked (.statement (.returnStatement info value)) ?_
  cases value with
  | none =>
    refine .ite (fun _ => .throw (.invalidSymbol _ (by decide)) _) fun returnsNothing => ?_
    obtain rfl : returnsValue = false := Bool.eq_false_iff.mpr returnsNothing
    refine .mono (.plain .returnVoid rfl rfl) ?_
    rintro _ finished _ rfl
    exact .returnNothing
  | some value =>
    have onValue (use : ValueUse) := compiles_code use value (knows value rfl)
    refine .ite (fun returns => ?_) fun returnsNothing => ?_
    · subst returns
      refine .bind (onValue .kept) fun _ => .mono (.plain .returnValue rfl rfl) ?_
      rintro _ finished _ rfl code operand
      exact .returnValue operand
    · obtain rfl : returnsValue = false := Bool.eq_false_iff.mpr returnsNothing
      refine .bind (onValue .discarded) fun _ => .mono (.plain .returnVoid rfl rfl) ?_
      rintro _ finished _ rfl code operand
      exact .returnDropped operand

theorem compiles_evaluated (returnsValue : Bool) (operation : Operation)
    (knows : operation.Knows site.Known) (isExpression : isStatement operation = false) :
    Compiles site (code site.outer .discarded operation) (.statement returnsValue operation) := by
  refine .marked (.statement operation) ((compiles_code .discarded operation knows).mono ?_)
  exact fun _ _ _ => .evaluated isExpression

section

variable (declares : site.declares)

include declares

theorem compiles_declaration (returnsValue : Bool) (info : Info) (symbol : LocalSymbol)
    (initializer : Option Operation)
    (knows : ∀ operation, initializer = some operation -> operation.Knows site.Known) :
    Compiles site (do
        let slot ← declareLocal symbol
        startCode site.outer symbol initializer
        emit (.setLocal slot))
      (.statement returnsValue (.declaration info symbol initializer)) := by
  refine .marked (.statement (.declaration info symbol initializer)) ?_
  refine .asking ⟨.declareLocal declares symbol, fun _ => quiet_declareLocal symbol⟩ fun slot => ?_
  cases initializer with
  | some value =>
    refine .bind (compiles_code .kept value (knows value rfl)) fun _ => .mono (.setLocal slot) ?_
    rintro _ finished _ rfl code start found
    exact .declaration found.declareLocal start
  | none =>
    rw [startCode, bind_assoc]
    refine .asking (asked_asks.resolve symbol.type) fun type =>
      .bind (.written (.withHash .pushDefault type rfl) rfl) fun _ => .mono (.setLocal slot) ?_
    rintro _ _ _ rfl _ ⟨_, present, rfl⟩ isType found
    exact .defaultDeclaration found.declareLocal isType present

set_option linter.unusedSectionVars false in
mutual

theorem compiles_statementCode (returnsValue : Bool) (operation : Operation)
    (knows : operation.Knows site.Known) :
    Compiles site (statementCode site.outer returnsValue operation)
      (.statement returnsValue operation) := by
  cases operation with simp only [statementCode]
  | block info operations =>
    refine .atLine (.marked (.statement (.block info operations)) ?_)
    refine (compiles_statementsCode returnsValue operations knows.each).mono ?_
    exact fun _ _ _ => .block
  | declaration info symbol initializer =>
    exact .atLine (compiles_declaration declares returnsValue info symbol initializer knows.each)
  | returnStatement info value =>
    exact .atLine (compiles_return returnsValue info value knows.each)
  | whileLoop info condition body =>
    refine .atLine (.marked (.statement (.whileLoop info condition body)) ?_)
    refine (Emits.loop (compiles_code .kept condition knows.child)
      (compiles_statementCode returnsValue body knows.child)).mono ?_
    rintro _ finished _ ⟨first, second, rfl, test, repeated⟩
    exact .whileLoop test repeated
  | conditional info condition whenTrue whenFalse =>
    split
    · rename_i type isType
      exact compiles_evaluated returnsValue _ knows (by simp [isStatement, isType])
    · rename_i untyped
      refine .atLine (.marked (.statement (.conditional info condition whenTrue whenFalse)) ?_)
      refine .bind (compiles_code .kept condition knows.child) fun _ => ?_
      have onTrue := compiles_statementCode returnsValue whenTrue knows.child
      cases whenFalse with simp only [alternativeCode]
      | none =>
        refine .mono (.guarded onTrue) ?_
        rintro _ finished _ ⟨second, rfl, onTrue⟩ first test
        exact .onlyIf untyped test onTrue
      | some whenFalse =>
        refine .mono (.branch onTrue (compiles_statementCode returnsValue whenFalse knows.child)) ?_
        rintro _ finished _ ⟨_, _, rfl, onTrue, onFalse⟩ _ test
        exact .ifElse untyped test onTrue onFalse
  | expressionStatement info expression =>
    refine .atLine (.marked (.statement (.expressionStatement info expression)) ?_)
    refine (compiles_code .discarded expression knows.child).mono ?_
    exact fun _ _ _ => .expressionStatement
  | _ => exact compiles_evaluated returnsValue _ knows rfl

theorem compiles_statementsCode (returnsValue : Bool) : ∀ operations : List Operation,
    (∀ operation, operation ∈ operations -> operation.Knows site.Known) ->
      Compiles site (statementsCode site.outer returnsValue operations)
        (.statements returnsValue operations)
  | [], _ => by
      rw [statementsCode]
      exact .mono (.pure ()) fun _ _ _ empty => empty.2 ▸ .noStatements
  | head :: tail, knows => by
      rw [statementsCode]
      obtain ⟨here, later⟩ := List.forall_mem_cons.mp knows
      refine .bind (compiles_statementCode returnsValue head here) fun _ =>
        (compiles_statementsCode returnsValue tail later).mono ?_
      exact fun _ finished second tailCode first headCode => .moreStatements headCode tailCode

end

theorem compiles_bodyCode (returnsValue : Bool) (operation : Operation)
    (knows : operation.Knows site.Known) :
    Compiles site (bodyCode site.outer returnsValue operation) (.body returnsValue operation) := by
  have onOperation (use : ValueUse) := compiles_code use operation knows
  refine .ite (fun asStatement => ?_) fun notStatement => ?_
  · refine .bind (compiles_statementCode declares returnsValue operation knows) fun _ =>
      .mono (.plain .returnVoid rfl rfl) ?_
    rintro _ finished _ rfl code inner
    exact .statementBody asStatement inner
  · have asExpression := Bool.eq_false_iff.mpr notStatement
    refine .ite (fun returns => ?_) fun returnsNothing => ?_
    · subst returns
      refine .ite (fun produces => ?_) fun _ => .throw (.invalidSymbol _ (by decide)) _
      refine .bind (onOperation .kept) fun _ => .mono (.plain .returnValue rfl rfl) ?_
      rintro _ finished _ rfl code inner
      exact .valueBody asExpression produces inner
    · obtain rfl : returnsValue = false := Bool.eq_false_iff.mpr returnsNothing
      refine .bind (onOperation .discarded) fun _ => .mono (.plain .returnVoid rfl rfl) ?_
      rintro _ finished _ rfl code inner
      exact .effectBody asExpression inner

end

theorem stepped_bodyCode (returnsValue : Bool) (knows : operation.Knows Known) :
    Stepped outer Known True (bodyCode outer returnsValue operation) :=
  (@compiles_bodyCode ⟨outer, {}, 0, 0, Known, True⟩ trivial returnsValue operation knows).stepped

end Compile
end OpMachine
