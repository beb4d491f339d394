import OpMachine.Proofs.CompiledTree

namespace OpMachine

/-!
# Numbers of units

Every anonymous function is compiled into a unit of its own, and the numbers of
units go up all the time.  So a compilation has a range of numbers to itself,
and the functions that it makes, in the sessions of all the methods it comes to,
are told apart by the numbers of their units.
-/

/-- The functions that a method loads, and those that these load.  They belong to
one session. -/
inductive CompiledMethod.Loads : CompiledMethod -> CompiledLambda -> Prop
  | here (member : lambda ∈ method.lambdas) : Loads method lambda
  | inside (member : outer ∈ method.lambdas) (inner : Loads outer.method lambda) :
      Loads method lambda

/-- The functions that are loaded somewhere in a method or in the methods that it
calls, at any depth. -/
inductive CompiledMethod.Contains : CompiledMethod -> CompiledLambda -> Prop
  | here (member : lambda ∈ method.lambdas) : Contains method lambda
  | inside (member : outer ∈ method.lambdas) (inner : Contains outer.method lambda) :
      Contains method lambda
  | callee (member : called ∈ method.callees) (inner : Contains called lambda) :
      Contains method lambda

namespace CompiledLambda

/-- A function that is alone in its unit, is called on the instance of the unit
and has the cell of the unit. -/
structure IsEnclosed (lambda : CompiledLambda) : Prop where
  methods : lambda.unit.methods = [lambda.method]
  cell : lambda.cell = .unit lambda.unit.id
  receiver : lambda.receiver = .object (.closure lambda.unit.id)

/-- Functions whose units have numbers in a range, each number only once. -/
structure Ledger (Known : CompiledLambda -> Prop) (low high : Nat) : Prop where
  encloses : ∀ {lambda : CompiledLambda}, Known lambda -> lambda.IsEnclosed
  above : ∀ {lambda : CompiledLambda}, Known lambda -> low < lambda.unit.id
  below : ∀ {lambda : CompiledLambda}, Known lambda -> lambda.unit.id ≤ high
  single : ∀ {one other : CompiledLambda}, Known one -> Known other ->
    one.unit.id = other.unit.id -> one = other

namespace Ledger

variable {Known Other : CompiledLambda -> Prop} {low middle high : Nat}

theorem mono (ledger : Ledger Known low high) (fewer : ∀ lambda, Other lambda -> Known lambda) :
    Ledger Other low high where
  encloses known := ledger.encloses (fewer _ known)
  above known := ledger.above (fewer _ known)
  below known := ledger.below (fewer _ known)
  single one other := ledger.single (fewer _ one) (fewer _ other)

theorem widen (ledger : Ledger Known low high) (down : lower ≤ low) (up : high ≤ higher) :
    Ledger Known lower higher where
  encloses := ledger.encloses
  above known := Nat.lt_of_le_of_lt down (ledger.above known)
  below known := Nat.le_trans (ledger.below known) up
  single := ledger.single

theorem none (fewer : ∀ lambda, ¬ Known lambda) : Ledger Known low high where
  encloses known := (fewer _ known).elim
  above known := (fewer _ known).elim
  below known := (fewer _ known).elim
  single one := (fewer _ one).elim

theorem union (first : Ledger Known low middle) (second : Ledger Other middle high)
    (down : low ≤ middle) (up : middle ≤ high) :
    Ledger (fun lambda => Known lambda ∨ Other lambda) low high where
  encloses := by
    rintro lambda (known | known)
    · exact first.encloses known
    · exact second.encloses known
  above := by
    rintro lambda (known | known)
    · exact first.above known
    · exact Nat.lt_of_le_of_lt down (second.above known)
  below := by
    rintro lambda (known | known)
    · exact Nat.le_trans (first.below known) up
    · exact second.below known
  single := by
    rintro one other (knownOne | knownOne) (knownOther | knownOther) same
    · exact first.single knownOne knownOther same
    · have apart := Nat.lt_of_le_of_lt (first.below knownOne) (second.above knownOther)
      exact absurd same (Nat.ne_of_lt apart)
    · have apart := Nat.lt_of_le_of_lt (first.below knownOther) (second.above knownOne)
      exact absurd same.symm (Nat.ne_of_lt apart)
    · exact second.single knownOne knownOther same

theorem of_single (encloses : made.IsEnclosed) (above : low < made.unit.id)
    (below : made.unit.id ≤ high) : Ledger (· = made) low high where
  encloses isMade := isMade ▸ encloses
  above isMade := isMade ▸ above
  below isMade := isMade ▸ below
  single isOne isOther _ := isOne.trans isOther.symm

end Ledger
end CompiledLambda

open CompiledLambda (Ledger)

/-! ## Bodies -/

/-- A computation of a method that numbers the units in it. -/
def Make.Counts (action : Make CompiledMethod) : Prop :=
  ∀ before method after, action before = .ok method after ->
    before.numbering.units ≤ after.numbering.units
      ∧ Ledger method.Contains before.numbering.units after.numbering.units

/-- The methods called by a body that are new, with the numbers of their units. -/
structure Body.Counts (before after : Body) : Prop where
  units : before.workspace.numbering.units ≤ after.workspace.numbering.units
  callees : ∃ added, after.callees = before.callees ++ added
    ∧ Ledger (fun lambda => ∃ callee, callee ∈ added ∧ callee.Contains lambda)
        before.workspace.numbering.units after.workspace.numbering.units

namespace Body.Counts

theorem still {before after : Body} (sameCallees : after.callees = before.callees)
    (sameUnits : after.workspace.numbering = before.workspace.numbering) : before.Counts after where
  units := Nat.le_of_eq (congrArg Numbering.units sameUnits.symm)
  callees := ⟨[], by rw [sameCallees, List.append_nil],
    .none fun _ known => known.elim fun _ found => absurd found.1 List.not_mem_nil⟩

theorem trans {first second third : Body} (earlier : first.Counts second)
    (later : second.Counts third) : first.Counts third where
  units := Nat.le_trans earlier.units later.units
  callees := by
    obtain ⟨front, isFront, firstLedger⟩ := earlier.callees
    obtain ⟨back, isBack, secondLedger⟩ := later.callees
    refine ⟨front ++ back, by rw [isBack, isFront, List.append_assoc], ?_⟩
    refine (firstLedger.union secondLedger earlier.units later.units).mono ?_
    rintro _ ⟨callee, member, contains⟩
    rcases List.mem_append.mp member with inFront | inBack
    · exact .inl ⟨callee, inFront, contains⟩
    · exact .inr ⟨callee, inBack, contains⟩

end Body.Counts

namespace Compile

/-- A part of a compilation that numbers the units in the methods that it calls. -/
def Counts {α : Type} (action : Compile α) : Prop :=
  ∀ before value after, action before = .ok value after -> before.Counts after

theorem counts_withSlots {α : Type} (action : SlotTable -> Except CompilationError (α × SlotTable)) :
    Counts (withSlots action) := by
  intro before value after runs
  obtain ⟨_, _, rfl⟩ := withSlots_ok runs
  exact .still rfl rfl

theorem Counts.of_stepped (callees : ∀ method, (outer.callee method).Counts) {α : Type}
    {action : Compile α} (stepped : Stepped outer Known declares action) : Counts action := by
  induction stepped with
  | parameterSlot | localSlot | freshSlot | declareLocal => exact counts_withSlots _
  | bind _ _ ofFirst ofNext =>
    intro before value after runs
    obtain ⟨answer, middle, firstly, secondly⟩ := ok_of_bind runs
    exact (ofFirst before answer middle firstly).trans (ofNext answer middle value after secondly)
  | pure | body | implicitReceivers =>
    intro before value after runs
    cases runs
    exact .still rfl rfl
  | throw =>
    intro before value after runs
    cases runs
  | emit =>
    intro before value after runs
    obtain ⟨_, _, rfl⟩ := emit_ok runs
    exact .still rfl rfl
  | lookup =>
    intro before value after runs
    obtain ⟨_, looked, rfl⟩ := make_ok runs
    cases looked
    exact .still rfl rfl
  | callee method =>
    intro before value after runs
    obtain ⟨callee, _, makes, adds⟩ := ok_of_bind runs
    obtain ⟨workspace, made, rfl⟩ := make_ok makes
    rw [(addCallee_ok adds).1]
    have ⟨units, ledger⟩ := callees method _ callee workspace made
    refine ⟨units, [callee], rfl, ledger.mono ?_⟩
    rintro _ ⟨_, member, contains⟩
    exact List.mem_singleton.mp member ▸ contains
  | lambdaIndex =>
    intro before value after runs
    rcases lambdaIndex_cases runs with ⟨_, _, _, rfl⟩ | ⟨_, _, _, _, rfl⟩
    · exact .still rfl rfl
    · exact .still rfl rfl

end Compile

/-! ## Functions and declarations -/

namespace Make

/-- A computation that opens no units. -/
def OpensNone {α : Type} (action : Make α) : Prop :=
  ∀ before value after, action before = .ok value after -> after.numbering = before.numbering

theorem asks_opensNone : Asks @OpensNone where
  pure value := by
    intro before result after runs
    cases runs
    rfl
  bind ofFirst ofNext := by
    intro before value after runs
    obtain ⟨answer, middle, firstly, secondly⟩ := ok_of_bind runs
    exact (ofNext answer middle value after secondly).trans (ofFirst before answer middle firstly)
  throw _ := by
    intro before result after runs
    cases runs
  lookup _ := by
    intro before value after runs
    cases runs
    rfl

/-- The numbers of the units in the methods that a body calls. -/
theorem counts_method {outer : Surroundings} (callees : ∀ method, (outer.callee method).Counts)
    (compiles : method outer symbol hasReceiver operation before = .ok compiled after) :
    before.numbering.units ≤ after.numbering.units
      ∧ Ledger (fun lambda => ∃ callee, callee ∈ compiled.callees
          ∧ callee.Contains lambda) before.numbering.units after.numbering.units := by
  unfold method at compiles
  simp only at compiles
  split at compiles
  · cases compiles
  · rename_i finished run
    cases compiles
    have counts := Compile.Counts.of_stepped callees
      (@Compile.stepped_bodyCode outer (fun _ => True) _ _ fun _ _ => trivial) _ _ _ run
    obtain ⟨_, isAdded, ledger⟩ := counts.callees
    exact ⟨counts.units, isAdded ▸ ledger⟩

end Make

/-- The functions of a session, and those in the methods that they call. -/
def Session.Contains (session : Session) (lambda : CompiledLambda) : Prop :=
  ∃ id outer, session.lambda? id = some outer ∧ (lambda = outer ∨ outer.method.Contains lambda)

namespace Make

variable {callee : MethodSymbol -> Make CompiledMethod} {session : Session} {symbol : MethodSymbol}
  {operation : Operation} {before after : Workspace} {function : CompiledFunction}

/-- What a method contains comes from its session or from the methods it calls. -/
theorem contains_of_method (conservative : ∀ symbol, (callee symbol).Grows)
    {compiled : CompiledMethod}
    (compiles : method ⟨session, callee⟩ symbol hasReceiver operation before = .ok compiled after)
    {lambda : CompiledLambda} (contains : compiled.Contains lambda) : session.Contains lambda
      ∨ ∃ called, called ∈ compiled.callees ∧ called.Contains lambda := by
  have surrounded : Surroundings.Conservative ⟨session, callee⟩ := conservative
  obtain ⟨_, _, _, encodes, rfl⟩ := method_ok surrounded compiles
  have known {outer : CompiledLambda} (member : outer ∈ compiled.lambdas) :
      ∃ id, session.lambda? id = some outer :=
    encodes.sound.lambdas outer (encodes.lambdas ▸ member)
  cases contains with
  | here member =>
    obtain ⟨id, found⟩ := known member
    exact .inl ⟨id, lambda, found, .inl rfl⟩
  | inside member inner =>
    obtain ⟨id, found⟩ := known member
    exact .inl ⟨id, _, found, .inr inner⟩
  | callee member inner => exact .inr ⟨_, member, inner⟩

/-- The numbers of the units of a session.  The induction is on the run through
the functions: each opens its own unit, then the methods that it calls are
compiled. -/
theorem Registers.counts (registers : Registers callee session before nodes next count after)
    (conservative : ∀ symbol, (callee symbol).Grows)
    (callees : ∀ symbol, (callee symbol).Counts) (started : low ≤ before.numbering.units)
    (ledger : Ledger session.Contains low before.numbering.units) :
    before.numbering.units ≤ after.numbering.units
      ∧ Ledger next.Contains low after.numbering.units := by
  induction registers with
  | done => exact ⟨Nat.le_refl _, ledger⟩
  | skipped _ _ ih => exact ih started ledger
  | @compiled _ middle _ _ _ _ before between _ made _ registered _ ih =>
      obtain ⟨opened, typed, sameLambdas, typing, compiles⟩ := registered.compiles
      have units : typed.numbering.units = before.numbering.units + 1 :=
        congrArg Numbering.units (asks_opensNone.functionType _ _ _ _ typing)
      have surrounded : ∀ symbol, (Surroundings.callee ⟨opened, callee⟩ symbol).Counts := callees
      obtain ⟨onward, inCallees⟩ := counts_method surrounded compiles
      rw [units] at onward inCallees
      have own : Ledger (· = made) before.numbering.units (before.numbering.units + 1) := by
        refine .of_single ⟨registered.encloses.methods, registered.encloses.cell,
          registered.encloses.receiver⟩ ?_ ?_
        · rw [registered.number]
          exact .refl
        · exact Nat.le_of_eq registered.number
      have upward : before.numbering.units ≤ between.numbering.units := Nat.le_of_succ_le onward
      have middleLedger : Ledger middle.Contains low between.numbering.units := by
        refine (ledger.union (own.union inCallees (Nat.le_succ _) onward) started upward).mono ?_
        rintro _ ⟨id, outer, found, isInside⟩
        rw [registered.lambda?_eq] at found
        split at found
        · cases found
          rcases isInside with rfl | inside
          · exact .inr (.inl rfl)
          · rcases contains_of_method conservative compiles inside with known | called
            · obtain ⟨id, other, found, isOther⟩ := known
              rw [Session.lambda?, sameLambdas] at found
              exact .inl ⟨id, other, found, isOther⟩
            · exact .inr (.inr called)
        · exact .inl ⟨id, outer, found, isInside⟩
      obtain ⟨further, whole⟩ := ih (Nat.le_trans started upward) middleLedger
      exact ⟨Nat.le_trans upward further, whole⟩

theorem counts_topLevel (conservative : ∀ symbol, (callee symbol).Grows)
    (callees : ∀ symbol, (callee symbol).Counts)
    (compiles : topLevel callee symbol operation before = .ok function after) :
    before.numbering.units ≤ after.numbering.units
      ∧ Ledger function.method.Contains before.numbering.units after.numbering.units := by
  obtain ⟨opened, session, prepared, _, noLambdas, _, ⟨_, making⟩, _, compiling, _,
    typing, opens⟩ := topLevel_ok conservative compiles
  have begins : before.numbering.units ≤ prepared.numbering.units := by
    rw [opens, asks_opensNone.functionType _ _ _ _ typing]
    exact Nat.le_succ _
  have none : Ledger opened.Contains before.numbering.units prepared.numbering.units := by
    refine .none ?_
    rintro lambda ⟨_, _, found, _⟩
    rw [Session.lambda?, noLambdas, Std.HashMap.getElem?_empty] at found
    cases found
  obtain ⟨onward, inSession⟩ :=
    (registers_of_lambdas making).counts conservative callees begins none
  have surrounded : ∀ symbol, (Surroundings.callee ⟨session, callee⟩ symbol).Counts := callees
  obtain ⟨further, inCallees⟩ := counts_method surrounded compiling
  have upward := Nat.le_trans begins onward
  exact ⟨Nat.le_trans upward further, (inSession.union inCallees upward further).mono
    fun lambda => contains_of_method conservative compiling⟩

theorem counts_nested (source : Source) (levels : Nat)
    (compiles : nested source levels active symbol operation before = .ok function after) :
    before.numbering.units ≤ after.numbering.units
      ∧ Ledger function.method.Contains before.numbering.units after.numbering.units := by
  induction levels generalizing active symbol operation before after function with
  | zero => cases compiles
  | succ levels ih =>
    rw [nested_succ] at compiles
    split at compiles
    · cases compiles
    · refine counts_topLevel (grows_callee source levels (symbol.id :: active)) ?_ compiles
      intro name started made finished calls
      obtain ⟨_, _, _, compiles, rfl⟩ := callee_ok calls
      exact ih compiles

theorem counts_declaration {source : Source} {id : SyntaxId}
    (compiles : declaration source id before = .ok function after) :
    before.numbering.units ≤ after.numbering.units
      ∧ Ledger function.method.Contains before.numbering.units after.numbering.units := by
  obtain ⟨_, _, _, compiles⟩ := declaration_ok compiles
  exact counts_nested source _ compiles

end Make
end OpMachine
