import OpMachine.Proofs.FunctionRegistration
import OpMachine.Proofs.InstructionReach
import OpMachine.Proofs.UnitNumbers

namespace OpMachine

/-!
# The identity of loaded functions

The function made from an anonymous function is made when it is loaded for the
first time, and recorded under the cell of its unit.  Nothing else touches the
record, so all loads of it, in whatever calls, push one and the same function,
and loads of others push other functions.
-/

open CompiledLambda (Ledger)

/-! ## Records of functions -/

namespace Heap

/-- Functions stay as they are, and records of them too. -/
structure Extends (before after : Heap) : Prop where
  functions : ∀ index, index < before.functions.size ->
    after.functions[index]? = before.functions[index]?
  delegates : ∀ (cell : CellId) (ref : FunctionRef), before.delegates[cell]? = some ref ->
    after.delegates[cell]? = some ref

/-- A record leads to the function of a known anonymous function that has the
cell. -/
structure Faithful (Known : CompiledLambda -> Prop) (heap : Heap) : Prop where
  made : ∀ (cell : CellId) (ref : FunctionRef), heap.delegates[cell]? = some ref ->
    ∃ lambda, Known lambda ∧ lambda.cell = cell ∧ heap.functions[ref.index]? = some lambda.function

namespace Extends

theorem refl (heap : Heap) : heap.Extends heap := ⟨fun _ _ => rfl, fun _ _ found => found⟩

theorem trans {first second third : Heap} (earlier : first.Extends second)
    (later : second.Extends third) : first.Extends third where
  functions := by
    intro index inside
    have present : index < second.functions.size := by
      have kept := earlier.functions index inside
      rw [Array.getElem?_eq_getElem inside] at kept
      exact (Array.getElem?_eq_some_iff.mp kept).1
    rw [later.functions index present, earlier.functions index inside]
  delegates cell ref found := later.delegates cell ref (earlier.delegates cell ref found)

variable {after : Heap}

theorem of_shares {before : Heap} (shares : before.Shares after) : before.Extends after where
  functions _ _ := by rw [shares.functions]
  delegates _ _ found := by rw [shares.delegates, found]

theorem of_admits {before : Heap} (admits : before.Admits after) : before.Extends after where
  functions index inside := by
    rw [Array.getElem?_eq_getElem inside]
    exact admits.functions index _ (Array.getElem?_eq_getElem inside)
  delegates _ _ found := by rw [admits.delegates, found]

theorem addFunction (heap : Heap) (cell : FunctionCell) : heap.Extends (heap.addFunction cell).2 where
  functions index inside := by
    rw [Heap.addFunction, Array.getElem?_push_lt inside, Array.getElem?_eq_getElem inside]
  delegates _ _ found := found

variable {cell : FunctionCell}

theorem function {before : Heap} (onward : before.Extends after) {index : Nat}
    (found : before.functions[index]? = some cell) :
    after.functions[index]? = some cell := by
  rw [onward.functions index (Array.getElem?_eq_some_iff.mp found).1, found]

end Extends

namespace Faithful

variable {Known : CompiledLambda -> Prop} {heap : Heap}

theorem of_shares (faithful : heap.Faithful Known) (shares : heap.Shares after) :
    after.Faithful Known where
  made cell ref found := by
    rw [shares.delegates] at found
    rw [shares.functions]
    exact faithful.made cell ref found

theorem addFunction (faithful : heap.Faithful Known) (cell : FunctionCell) :
    (heap.addFunction cell).2.Faithful Known where
  made named ref found := by
    obtain ⟨lambda, known, isCell, isFunction⟩ := faithful.made named ref found
    exact ⟨lambda, known, isCell, (Extends.addFunction heap cell).function isFunction⟩

end Faithful

variable {Known : CompiledLambda -> Prop} {heap : Heap} {lambda : CompiledLambda}

theorem delegate_new (absent : heap.delegates[lambda.cell]? = none) :
    heap.delegate lambda = (⟨heap.functions.size⟩, { heap with
        functions := heap.functions.push lambda.function
        delegates := heap.delegates.insert lambda.cell ⟨heap.functions.size⟩ }) := by
  rw [delegate, absent]
  rfl

/-- The load of a known function.  It is recorded afterwards, and nothing that was
recorded changes. -/
theorem delegate_faithful {low high : Nat} (ledger : Ledger Known low high)
    (faithful : heap.Faithful Known) (known : Known lambda) :
    heap.Extends (heap.delegate lambda).2 ∧ (heap.delegate lambda).2.Faithful Known
      ∧ (heap.delegate lambda).2.delegates[lambda.cell]? = some (heap.delegate lambda).1
      ∧ (heap.delegate lambda).2.functions[(heap.delegate lambda).1.index]? = some lambda.function := by
  cases recorded : heap.delegates[lambda.cell]? with
  | some ref =>
    rw [delegate, recorded]
    obtain ⟨other, otherKnown, sameCell, isFunction⟩ := faithful.made _ ref recorded
    have same : other = lambda := by
      apply ledger.single otherKnown known
      rw [(ledger.encloses otherKnown).cell, (ledger.encloses known).cell] at sameCell
      exact CellId.unit.inj sameCell
    exact ⟨.refl heap, faithful, recorded, same ▸ isFunction⟩
  | none =>
    rw [delegate_new recorded]
    have added := Extends.addFunction heap lambda.function
    refine ⟨⟨added.functions, ?_⟩, ⟨?_⟩, ?_, ?_⟩
    · intro cell ref found
      rw [Std.HashMap.getElem?_insert]
      split
      · rename_i same
        rw [beq_iff_eq] at same
        rw [← same, recorded] at found
        cases found
      · exact found
    · intro cell ref found
      rcases inserted_or_found found with ⟨same, rfl⟩ | earlier
      · exact ⟨lambda, known, same, Array.getElem?_push_size⟩
      · obtain ⟨other, otherKnown, isCell, isFunction⟩ := faithful.made cell ref earlier
        exact ⟨other, otherKnown, isCell, added.function isFunction⟩
    · exact Std.HashMap.getElem?_insert_self
    · exact Array.getElem?_push_size

end Heap

/-! ## Steps -/

/-- All functions that are loaded in a method are known. -/
def CompiledMethod.Familiar (Known : CompiledLambda -> Prop) (method : CompiledMethod) : Prop :=
  ∀ lambda, method.Contains lambda -> Known lambda

/-- Records are faithful, and the code of all functions is familiar. -/
structure Heap.Familiar (Known : CompiledLambda -> Prop) (heap : Heap) : Prop where
  faithful : heap.Faithful Known
  functions : ∀ cell method, cell ∈ heap.functions -> cell.body = .compiled method ->
    method.Familiar Known

def Callee.Familiar (Known : CompiledLambda -> Prop) : Callee -> Prop
  | .method called _ _ => called.Familiar Known
  | _ => True

def Control.Familiar (Known : CompiledLambda -> Prop) : Control -> Prop
  | .instruction frame => frame.method.Familiar Known
  | .call callee => callee.Familiar Known
  | .give _ => True

def Activation.Familiar (Known : CompiledLambda -> Prop) : Activation -> Prop
  | .frame waiting _ => waiting.method.Familiar Known
  | .host resume _ => ∀ answer later, (resume answer later).Orderly (fun _ => True) later

namespace Heap.Familiar

variable {Known : CompiledLambda -> Prop} {heap : Heap}

theorem of_shares (familiar : heap.Familiar Known) (shares : heap.Shares after) :
    after.Familiar Known where
  faithful := familiar.faithful.of_shares shares
  functions cell method member := familiar.functions cell method (shares.functions ▸ member)

theorem admits (familiar : heap.Familiar Known) (admits : heap.Admits after) :
    after.Familiar Known where
  faithful := by
    constructor
    intro cell ref found
    rw [admits.delegates] at found
    obtain ⟨lambda, known, isCell, isFunction⟩ := familiar.faithful.made cell ref found
    exact ⟨lambda, known, isCell, admits.functions _ _ isFunction⟩
  functions cell method member isBody := by
    obtain ⟨known, isKnown, sameBody⟩ := admits.code cell method member isBody
    exact familiar.functions known method isKnown sameBody

theorem addFunction (familiar : heap.Familiar Known)
    (code : ∀ method, cell.body = .compiled method -> method.Familiar Known) :
    (heap.addFunction cell).2.Familiar Known where
  faithful := familiar.faithful.addFunction cell
  functions other method member isBody := by
    rcases Array.mem_push.mp member with earlier | rfl
    · exact familiar.functions other method earlier isBody
    · exact code method isBody

theorem delegate (ledger : Ledger Known low high) (familiar : heap.Familiar Known)
    {method : CompiledMethod} (code : method.Familiar Known) (member : lambda ∈ method.lambdas) :
    (heap.delegate lambda).2.Familiar Known where
  faithful := (heap.delegate_faithful ledger familiar.faithful (code lambda (.here member))).2.1
  functions cell compiled isThere isBody := by
    rcases mem_functions_delegate isThere with earlier | rfl
    · exact familiar.functions cell compiled earlier isBody
    · cases isBody
      exact fun other contains => code other (.inside member contains)

end Heap.Familiar

variable {heap : Heap} {Holds : Site -> CompiledMethod -> Prop} {site : Site}

theorem Frame.enter_shares {method : CompiledMethod} {receiver : Option Value}
    {arguments : List Value}
    (enters : enter method receiver arguments heap = .ok (frame, after)) :
    frame.method = method ∧ heap.Shares after := by
  have copied (values : List Value) (copies : Array Value) (heap : Heap) :
      heap.Shares (copyAll values copies heap).2 := by
    induction values generalizing copies heap with
    | nil => exact .refl heap
    | cons value _ ih => exact (Heap.Shares.refl heap |>.copied value).trans (ih _ _)
  unfold enter at enters
  by_cases count : arguments.length = method.parameterCount
  · rw [if_pos count] at enters
    cases enters
    exact ⟨rfl, copied _ _ _⟩
  · rw [if_neg count] at enters
    cases enters

namespace Machine

/-- The code that a machine runs or may run is familiar. -/
structure Familiar (Known : CompiledLambda -> Prop) (machine : Machine) : Prop where
  control : machine.control.Familiar Known
  waiting : ∀ activation, activation ∈ machine.waiting -> activation.Familiar Known
  heap : machine.heap.Familiar Known

/-- What a step leads to is familiar, and no function was lost. -/
def Carries (Known : CompiledLambda -> Prop) (heap : Heap) : Progress -> Prop
  | .running next => next.Familiar Known ∧ heap.Extends next.heap
  | .ended ending => ending.heap.Familiar Known ∧ heap.Extends ending.heap

section

variable {Known : CompiledLambda -> Prop} {host : Host} {waiting : List Activation} {depth : Nat}
  {heap : Heap} (familiar : heap.Familiar Known)
  (activations : ∀ activation, activation ∈ waiting -> activation.Familiar Known)

include familiar

include activations

theorem carries_refuse (error : RuntimeError) :
    Carries Known heap (refuse error waiting depth heap) :=
  ⟨⟨trivial, activations, familiar⟩, .refl heap⟩

theorem carries_hostStep (counts : Bool) {step : HostStep}
    (orderly : step.Orderly (fun _ => True) heap) :
    Carries Known heap (hostStep counts waiting depth step) := by
  cases step with
  | ended =>
    exact ⟨⟨trivial, activations, familiar.admits orderly.1⟩, .of_admits orderly.1⟩
  | calling =>
    have goesOn (answer : Except RuntimeError Value) (later : Heap) :=
      orderly.2 answer later fun _ _ => trivial
    exact ⟨⟨trivial, List.forall_mem_cons.mpr ⟨goesOn, activations⟩, familiar.admits orderly.1⟩,
      .of_admits orderly.1⟩

theorem carries_give (result : Except RuntimeError Value) :
    Carries Known heap (give result waiting depth heap) := by
  cases waiting with
  | nil => exact ⟨familiar, .refl heap⟩
  | cons activation rest =>
    have ⟨first, others⟩ := List.forall_mem_cons.mp activations
    cases activation with
    | host resume counts => exact carries_hostStep familiar others counts (first result heap)
    | frame _ keep =>
      cases result with
      | error error => exact carries_refuse familiar others error
      | ok =>
        refine ⟨⟨?_, others, familiar⟩, .refl heap⟩
        cases keep <;> exact first

theorem carries_instruction (ledger : Ledger Known low high) {frame : Frame}
    (code : frame.method.Familiar Known) :
    Carries Known heap (instruction host frame waiting depth heap) := by
  have ⟨stays, functions⟩ := Execute.functions_instruction host.catalog ⟨frame, heap⟩
  have carried : (Execute.left (Execute.instruction host.catalog) ⟨frame, heap⟩).heap.Familiar Known
      ∧ heap.Extends (Execute.left (Execute.instruction host.catalog) ⟨frame, heap⟩).heap := by
    rcases functions with shares | ⟨lambda, member, isHeap⟩
    · exact ⟨familiar.of_shares shares, .of_shares shares⟩
    · rw [isHeap]
      exact ⟨familiar.delegate ledger code member,
        (heap.delegate_faithful ledger familiar.faithful (code lambda (.here member))).1⟩
  have ⟨isFamiliar, onward⟩ := carried
  unfold Execute.left at stays isFamiliar onward
  unfold instruction
  cases ran : Execute.instruction host.catalog ⟨frame, heap⟩ with
  | error =>
    simp only [ran] at isFamiliar onward
    exact ⟨⟨trivial, activations, isFamiliar⟩, onward⟩
  | ok continuation after =>
    simp only [ran] at stays isFamiliar onward
    have own : after.frame.method.Familiar Known := stays ▸ code
    cases continuation with
    | next => exact ⟨⟨own, activations, isFamiliar⟩, onward⟩
    | leave => exact ⟨⟨trivial, activations, isFamiliar⟩, onward⟩
    | call callee =>
      refine ⟨⟨?_, List.forall_mem_cons.mpr ⟨own, activations⟩, isFamiliar⟩, onward⟩
      cases callee with
      | method =>
        rcases List.mem_cons.mp (Execute.instruction_calls ran) with rfl | member
        · exact code
        · exact fun lambda contains => code lambda (.callee member contains)
      | _ => trivial

end

/-- A step of a familiar machine. -/
theorem Familiar.carries_step {host : Host} {low high : Nat} (ledger : Ledger Known low high)
    (orderly : host.natives.Orderly) {machine : Machine} (familiar : machine.Familiar Known) :
    Carries Known machine.heap (machine.step host) := by
  rcases machine with ⟨control, waiting, depth, heap⟩
  have ⟨isControl, activations, isHeap⟩ := familiar
  refine step_rule ?_ (fun result _ => carries_give isHeap activations result)
    (fun _ _ error _ => carries_refuse isHeap activations error) ?_ ?_
  · rintro _ rfl
    exact carries_instruction isHeap activations ledger isControl
  · rintro _ _ _ _ frame _ rfl enters entered
    have ⟨isMethod, shares⟩ := Frame.enter_shares entered
    have code : frame.method.Familiar Known := by
      cases enters with
      | method => exact isMethod ▸ isControl
      | function _ known isBody => exact isMethod ▸ isHeap.functions _ _ known isBody
    exact ⟨⟨code, activations, isHeap.of_shares shares⟩, .of_shares shares⟩
  · intro _ function call counts _ _
    exact carries_hostStep isHeap activations counts
      (function.action.orderly_perform orderly (fun _ _ => trivial) call heap)

end Machine

/-! ## Sequences of calls -/

/-- Compiled functions are put on a heap, which may change otherwise as long as
its functions stay as they are. -/
inductive Heap.Receives (functions : List CompiledFunction) : Heap -> Heap -> Prop
  | done (heap : Heap) : Receives functions heap heap
  | changed {heap middle after : Heap} (shares : heap.Shares middle)
      (later : Receives functions middle after) : Receives functions heap after
  | added {heap after : Heap} {function : CompiledFunction} (member : function ∈ functions)
      (later : Receives functions (heap.addFunction function.cell).2 after) :
      Receives functions heap after

theorem Heap.Receives.familiar {functions : List CompiledFunction} {heap : Heap}
    (receives : Heap.Receives functions heap after)
    (code : ∀ function, function ∈ functions -> function.method.Familiar Known)
    (familiar : heap.Familiar Known) : after.Familiar Known ∧ heap.Extends after := by
  induction receives with
  | done => exact ⟨familiar, .refl _⟩
  | changed shares _ ih =>
    have ⟨isFamiliar, onward⟩ := ih (familiar.of_shares shares)
    exact ⟨isFamiliar, (Heap.Extends.of_shares shares).trans onward⟩
  | added member _ ih =>
    have ⟨isFamiliar, onward⟩ := ih (familiar.addFunction fun method isBody => by
      cases isBody
      exact code _ member)
    exact ⟨isFamiliar, (Heap.Extends.addFunction _ _).trans onward⟩

namespace Machine

/-- Steps, and calls after a run has ended in one way or the other, lead from one
machine to another.  The host may change on the way, as its catalog grows; its
native functions are orderly. -/
inductive Leads (functions : List CompiledFunction) : Machine -> Machine -> Prop
  | refl (machine : Machine) : Leads functions machine machine
  | step {host : Host} {first second third : Machine} (orderly : host.natives.Orderly)
      (taken : first.step host = .running second) (later : Leads functions second third) : Leads functions first third
  | call {host : Host} {first third : Machine} {ending : Ending} {heap : Heap} {ref : FunctionRef}
      {arguments : List Value} (orderly : host.natives.Orderly)
      (ended : first.step host = .ended ending)
      (received : Heap.Receives functions ending.heap heap)
      (later : Leads functions (.calling ref arguments heap) third) : Leads functions first third

variable {first second : Machine}

theorem Leads.trans (earlier : Leads functions first second) (later : Leads functions second third) :
    Leads functions first third := by
  induction earlier with
  | refl => exact later
  | step orderly taken _ ih => exact .step orderly taken (ih later)
  | call orderly ended received _ ih => exact .call orderly ended received (ih later)

/-- A machine is about to load the function of an anonymous function. -/
def AtLoad (machine : Machine) (lambda : CompiledLambda) : Prop :=
  ∃ frame, ∃ index : UInt8, machine.control = .instruction frame
    ∧ frame.method.chunk.Holds frame.position (Instruction.withByte .loadDelegate index rfl).bytes
    ∧ frame.method.lambdas[index.toNat]? = some lambda

/-- A step pushes a reference to a function. -/
def Pushes (host : Host) (machine : Machine) (ref : FunctionRef) (next : Machine) : Prop :=
  machine.step host = .running next ∧ ∃ before : Frame, ∃ after : Frame,
    machine.control = .instruction before ∧ next.control = .instruction after
      ∧ after.operands = .function ref :: before.operands

/-- Native functions have no part in the execution of an instruction. -/
theorem Pushes.leads {machine : Machine} (pushes : machine.Pushes host ref next) :
    Leads functions machine next := by
  obtain ⟨taken, before, _, isControl, _⟩ := pushes
  rcases machine with ⟨control, waiting, depth, heap⟩
  cases isControl
  let alike : Host := { host with natives := .silent }
  have taken : step alike ⟨.instruction before, waiting, depth, heap⟩ = .running next := taken
  exact .step Natives.orderly_silent taken (.refl next)

section

variable {Known : CompiledLambda -> Prop} {functions : List CompiledFunction} {low high : Nat}
  (ledger : Ledger Known low high)
  (code : ∀ function, function ∈ functions -> function.method.Familiar Known)

theorem Familiar.calling {heap : Heap} (familiar : heap.Familiar Known) (ref : FunctionRef)
    (arguments : List Value) : (calling ref arguments heap).Familiar Known :=
  ⟨trivial, fun _ member => (nomatch member), familiar⟩

include code ledger

/-- Whatever a machine leads to is familiar, and no function was lost. -/
theorem Familiar.leads {later : Machine} (familiar : first.Familiar Known)
    (leads : Leads functions first later) :
    later.Familiar Known ∧ first.heap.Extends later.heap := by
  induction leads with
  | refl => exact ⟨familiar, .refl _⟩
  | @step host first _ _ orderly taken _ ih =>
    have carries : Carries Known first.heap (first.step host) :=
      familiar.carries_step ledger orderly
    rw [taken] at carries
    have ⟨isFamiliar, onward⟩ := ih carries.1
    exact ⟨isFamiliar, carries.2.trans onward⟩
  | @call host first _ _ _ _ _ orderly ended received _ ih =>
    have carries : Carries Known first.heap (first.step host) :=
      familiar.carries_step ledger orderly
    rw [ended] at carries
    have ⟨receivedFamiliar, receiving⟩ := received.familiar code carries.1
    have ⟨isFamiliar, onward⟩ := ih (.calling receivedFamiliar _ _)
    exact ⟨isFamiliar, (carries.2.trans receiving).trans onward⟩

end

theorem AtLoad.step {machine : Machine} (atLoad : machine.AtLoad lambda) :
    ∃ (before : Frame) (after : Frame),
      machine.control = .instruction before ∧ lambda ∈ before.method.lambdas
        ∧ after.operands = .function (machine.heap.delegate lambda).1 :: before.operands
        ∧ machine.step host = .running { machine with
            control := .instruction after, heap := (machine.heap.delegate lambda).2 } := by
  obtain ⟨frame, _, isControl, holds, found⟩ := atLoad
  rcases machine with ⟨control, waiting, depth, heap⟩
  cases isControl
  let after : Frame := { frame with
    operands := .function (heap.delegate lambda).1 :: frame.operands
    position := frame.position + 2 }
  have loads : Execute.instruction host.catalog ⟨frame, heap⟩
      = .ok .next ⟨after, (heap.delegate lambda).2⟩ := by
    rw [Execute.instruction_withByte host.catalog holds rfl, Execute.frame_bind, found]
    rfl
  refine ⟨frame, after, rfl, List.mem_of_getElem? found, rfl, ?_⟩
  change instruction host frame waiting depth heap = _
  rw [instruction, loads]

variable {host : Host} {machine : Machine}

theorem AtLoad.pushes {lambda : CompiledLambda} (atLoad : machine.AtLoad lambda) : ∃ next,
      machine.Pushes host (machine.heap.delegate lambda).1 next
        ∧ next.heap = (machine.heap.delegate lambda).2 := by
  obtain ⟨before, after, isControl, _, operands, taken⟩ := atLoad.step
  exact ⟨_, ⟨taken, before, after, isControl, rfl, operands⟩, rfl⟩

variable {otherRef oneRef : FunctionRef}

theorem Pushes.unique (pushes : machine.Pushes host oneRef one)
    (pushesOther : machine.Pushes host otherRef other) : oneRef = otherRef ∧ one = other := by
  obtain ⟨taken, _, _, isBefore, isAfter, operands⟩ := pushes
  obtain ⟨takenToo, beforeToo, afterToo, isBeforeToo, isAfterToo, operandsToo⟩ := pushesOther
  cases taken.symm.trans takenToo
  cases isBefore.symm.trans isBeforeToo
  cases isAfter.symm.trans isAfterToo
  cases operands.symm.trans operandsToo
  exact ⟨rfl, rfl⟩

section

variable {Known : CompiledLambda -> Prop} {functions : List CompiledFunction} {low high : Nat}
  (ledger : Ledger Known low high)
  (code : ∀ function, function ∈ functions -> function.method.Familiar Known)
  {machine next : Machine} {lambda : CompiledLambda} {host : Host}

theorem Familiar.known
    (familiar : machine.Familiar Known) (atLoad : machine.AtLoad lambda) : Known lambda := by
  obtain ⟨_, _, isControl, _, found⟩ := atLoad
  have own := familiar.control
  rw [isControl] at own
  exact own lambda (.here (List.mem_of_getElem? found))

include ledger

/-- The function that was loaded is recorded. -/
theorem Familiar.recorded (familiar : machine.Familiar Known) (atLoad : machine.AtLoad lambda)
    (pushes : machine.Pushes host ref next) : next.heap.delegates[lambda.cell]? = some ref
      ∧ next.heap.functions[ref.index]? = some lambda.function := by
  obtain ⟨_, pushesOther, isHeap⟩ := atLoad.pushes
  obtain ⟨rfl, rfl⟩ := pushes.unique pushesOther
  rw [isHeap]
  exact (Heap.delegate_faithful ledger familiar.heap.faithful (familiar.known atLoad)).2.2

include code

/-- Two loads, one after the other, push the same reference exactly if they are
loads of the same function. -/
theorem Familiar.same_iff {last : Machine} {one other : CompiledLambda}
    (familiar : first.Familiar Known) (atOne : first.AtLoad one)
    (pushesOne : first.Pushes host oneRef next) (leads : Leads functions next second)
    (atOther : second.AtLoad other) (pushesOther : second.Pushes otherHost otherRef last) :
    otherRef = oneRef ↔ other = one := by
  have nextFamiliar := (familiar.leads ledger code pushesOne.leads).1
  have ⟨secondFamiliar, onward⟩ := nextFamiliar.leads ledger code leads
  have ⟨oneRecord, oneFunction⟩ := familiar.recorded ledger atOne pushesOne
  have ⟨otherRecord, otherFunction⟩ := secondFamiliar.recorded ledger atOther pushesOther
  have last := (secondFamiliar.leads ledger code pushesOther.leads).2
  have stillRecorded := last.delegates _ _ (onward.delegates _ _ oneRecord)
  have stillThere := last.function (onward.function oneFunction)
  constructor
  · rintro rfl
    -- Both functions are called on the instance of their unit.
    have same : other.function = one.function :=
      Option.some.inj (otherFunction.symm.trans stillThere)
    have otherEncloses := ledger.encloses (secondFamiliar.known atOther)
    have oneEncloses := ledger.encloses (familiar.known atOne)
    apply ledger.single (secondFamiliar.known atOther) (familiar.known atOne)
    have receivers : some other.receiver = some one.receiver := congrArg FunctionCell.target same
    rw [otherEncloses.receiver, oneEncloses.receiver] at receivers
    exact ObjectRef.closure.inj (Value.object.inj (Option.some.inj receivers))
  · rintro rfl
    exact Option.some.inj (otherRecord.symm.trans stillRecorded)

end

end Machine

/-! ## Compilations -/

/-- The functions of one session are told apart by their symbols. -/
def CompiledMethod.OnePerSymbol (method : CompiledMethod) : Prop :=
  ∀ one other, method.Loads one -> method.Loads other -> one.symbol = other.symbol ->
    one = other

variable {source : Source}

/-- A function that is loaded inside a declaration is the one that was compiled
for its symbol. -/
theorem Source.Makes.isCompiled {lambda : CompiledLambda} (loads : method.Loads lambda)
    (makes : source.Makes Holds site method) : site.compiled lambda.symbol = some lambda := by
  induction loads generalizing site with
  | here member =>
    obtain ⟨_, loads, _⟩ := makes.lambda member
    exact loads.isCompiled
  | inside member _ ih =>
    obtain ⟨_, _, inside⟩ := makes.lambda member
    have known := ih inside
    exact known

theorem Source.Makes.onePerSymbol {method : CompiledMethod} (makes : source.Makes Holds site method) :
    method.OnePerSymbol := by
  intro one other loadsOne loadsOther same
  have isOne := makes.isCompiled loadsOne
  rw [same, makes.isCompiled loadsOther] at isOne
  exact (Option.some.inj isOne).symm

namespace Make

variable {function : CompiledFunction}

theorem onePerSymbol_declaration {id : SyntaxId}
    (compiles : declaration source id before = .ok function after) :
    function.method.Throughout CompiledMethod.OnePerSymbol := by
  obtain ⟨symbol, operation, isBody, compiles⟩ := declaration_ok compiles
  obtain ⟨_, _, makes⟩ : ∃ site : Site, site.Enters [] symbol operation
      ∧ source.Makes (fun _ _ => True) site function.method :=
    makes_nested (fun _ _ _ _ => trivial) (Source.hasBody_of_body? isBody) (.refl _) compiles
      (.refl _)
  exact makes.throughout Source.Makes.onePerSymbol

/-- Functions compiled one after the other, from whatever sources.  Between two
compilations there may be others, also such that fail. -/
inductive InTurn : Workspace -> List CompiledFunction -> Prop
  | done (workspace : Workspace) : InTurn workspace []
  | compiled {source : Source} {id : SyntaxId} {before after next : Workspace}
      {function : CompiledFunction} {rest : List CompiledFunction}
      (compiles : declaration source id before = .ok function after)
      (onward : after.numbering.units ≤ next.numbering.units) (later : InTurn next rest) :
      InTurn before (function :: rest)

/-- Everything loaded in one of a list of functions. -/
def ContainedIn (functions : List CompiledFunction) (lambda : CompiledLambda) : Prop :=
  ∃ function, function ∈ functions ∧ function.method.Contains lambda

namespace InTurn

variable {before : Workspace} {functions : List CompiledFunction}

variable (compiled : InTurn before functions)

include compiled

theorem onePerSymbol (member : function ∈ functions) :
    function.method.Throughout CompiledMethod.OnePerSymbol := by
  induction compiled with
  | done => cases member
  | compiled compiles _ _ ih =>
    rcases List.mem_cons.mp member with rfl | behind
    · exact onePerSymbol_declaration compiles
    · exact ih behind

theorem ledger : ∃ high,
    before.numbering.units ≤ high ∧ Ledger (ContainedIn functions) before.numbering.units high := by
  induction compiled with
  | done =>
    refine ⟨_, Nat.le_refl _, .none ?_⟩
    rintro lambda ⟨_, member, _⟩
    cases member
  | compiled compiles onward _ ih =>
    have ⟨upward, own⟩ := counts_declaration compiles
    obtain ⟨high, further, others⟩ := ih
    refine ⟨high, Nat.le_trans upward (Nat.le_trans onward further), ?_⟩
    have before := own.widen .refl onward
    refine (before.union others (Nat.le_trans upward onward) further).mono ?_
    rintro _ ⟨function, member, contains⟩
    rcases List.mem_cons.mp member with rfl | behind
    · exact .inl contains
    · exact .inr ⟨function, behind, contains⟩

theorem apart : functions.Pairwise fun one other =>
    ∀ lambda, one.method.Contains lambda -> ¬ other.method.Contains lambda := by
  induction compiled with
  | done => exact .nil
  | compiled compiles onward later ih =>
    refine .cons ?_ ih
    intro other member lambda inOne inOther
    have ⟨_, own⟩ := counts_declaration compiles
    obtain ⟨_, _, others⟩ := later.ledger
    have below := Nat.le_trans (own.below inOne) onward
    exact absurd (others.above ⟨other, member, inOther⟩) (Nat.not_lt_of_le below)

end InTurn
end Make

/-- A heap on which nothing was loaded yet, and whose compiled functions are among
the given ones. -/
structure Heap.Fresh (functions : List CompiledFunction) (heap : Heap) : Prop where
  delegates : ∀ cell : CellId, heap.delegates[cell]? = none
  functions : ∀ cell method, cell ∈ heap.functions -> cell.body = .compiled method ->
    ∃ function, function ∈ functions ∧ function.method = method

theorem Heap.Fresh.familiar {functions : List CompiledFunction}
    (fresh : heap.Fresh functions) : heap.Familiar (Make.ContainedIn functions) where
  faithful := by
    constructor
    intro cell ref found
    rw [fresh.delegates] at found
    cases found
  functions cell method member isBody lambda contains := by
    obtain ⟨function, isThere, rfl⟩ := fresh.functions cell method member isBody
    exact ⟨function, isThere, contains⟩

/-- Functions that were compiled in turn are called in any order, with any
arguments, and the calls may fail.  All loads of one anonymous function push the
same function: its target is the instance of the unit, its body is the method of
the unit.  Loads of two of them never push the same, and no two of them have the
same symbol in one session or come from two compilations. -/
theorem Make.functions_identified {before : Workspace} {functions : List CompiledFunction}
    (compiled : InTurn before functions) {heap : Heap} (fresh : heap.Fresh functions) :
    (∀ function, function ∈ functions ->
      function.method.Throughout CompiledMethod.OnePerSymbol)
    ∧ functions.Pairwise (fun one other =>
      ∀ lambda, one.method.Contains lambda -> ¬ other.method.Contains lambda)
    ∧ ∀ ref arguments first one host,
      Machine.Leads functions (.calling ref arguments heap) first -> first.AtLoad one ->
        ContainedIn functions one ∧ ∃ oneRef next,
          first.Pushes host oneRef next ∧ one.unit.methods = [one.method]
          ∧ (∀ later, Machine.Leads functions next later ->
            later.heap.function oneRef = ⟨one.delegateType, one.signature,
              some (.object (.closure one.unit.id)), .compiled one.method⟩)
          ∧ ∀ second other otherHost otherRef last, Machine.Leads functions next second ->
            second.AtLoad other -> second.Pushes otherHost otherRef last ->
              (otherRef = oneRef ↔ other = one) := by
  refine ⟨fun function member => compiled.onePerSymbol member, compiled.apart, ?_⟩
  intro ref arguments first one host leads atOne
  obtain ⟨_, _, ledger⟩ := compiled.ledger
  have code (function : CompiledFunction) (member : function ∈ functions) :
      function.method.Familiar (ContainedIn functions) :=
    fun lambda contains => ⟨function, member, contains⟩
  have familiar : first.Familiar (ContainedIn functions) :=
    ((Machine.Familiar.calling fresh.familiar ref arguments).leads ledger code leads).1
  have known := familiar.known atOne
  have isEnclosed := ledger.encloses known
  obtain ⟨next, pushes, _⟩ := atOne.pushes
  have recorded := familiar.recorded ledger atOne pushes
  refine ⟨known, _, next, pushes, isEnclosed.methods, ?_, ?_⟩
  · intro later onward
    have ⟨_, kept⟩ := ((familiar.leads ledger code pushes.leads).1).leads ledger code onward
    rw [Heap.function, Array.getD_eq_getD_getElem?, kept.function recorded.2, Option.getD_some,
      CompiledLambda.function, isEnclosed.receiver]
  · intro second other otherHost otherRef last onward atOther pushesOther
    exact familiar.same_iff ledger code atOne pushes onward atOther pushesOther

namespace Nest

/-- A call that is about to load a function. -/
def entered (made : CompiledLambda) (heap : Heap) : Machine :=
  { control := .instruction { method := loading "Spin" false made, arguments := #[], locals := #[] }
    depth := 1
    heap }

theorem atLoad_entered (made : CompiledLambda) (heap : Heap) : (entered made heap).AtLoad made :=
  ⟨_, 0, rfl, ⟨rfl, rfl, trivial⟩, rfl⟩

variable {functions : List CompiledFunction} {made : CompiledLambda} {heap : Heap}
  {ref : FunctionRef}

/-- The call of a method that loads one function. -/
theorem leads_entered {type : TypeHash} (found : heap.function ref
      = ⟨type, ⟨[], none⟩, none, .compiled (loading "Spin" false made)⟩) :
    Machine.Leads functions (.calling ref [] heap) (entered made heap) := by
  have enters : (Machine.calling ref [] heap).step { catalog := Spin.registry }
      = .running (entered made heap) := by
    change Machine.callFunction _ ref [] [] 0 heap = _
    rw [Machine.callFunction, found]
    rfl
  exact .step Natives.orderly_silent enters (.refl _)

/-- Once the function is loaded the method returns, and something may be called. -/
theorem leads_again (pushes : (entered made heap).Pushes host ref next) :
    Machine.Leads functions next (.calling again [] next.heap) := by
  let loaded : Frame :=
    { method := loading "Spin" false made, arguments := #[], locals := #[]
      operands := [.function (heap.delegate made).1], position := 2 }
  have loads : (entered made heap).step host
      = .running ⟨.instruction loaded, [], 1, (heap.delegate made).2⟩ := rfl
  cases pushes.1.symm.trans loads
  let quiet : Host := { catalog := Spin.registry }
  have returns : (⟨.instruction loaded, [], 1, (heap.delegate made).2⟩ : Machine).step quiet
      = .running ⟨.give (.ok .void), [], 0, (heap.delegate made).2⟩ := rfl
  have ends : (⟨.give (.ok .void), [], 0, (heap.delegate made).2⟩ : Machine).step quiet
      = .ended ⟨.ok .void, (heap.delegate made).2⟩ := rfl
  exact .step Natives.orderly_silent returns
    (.call Natives.orderly_silent ends (.done _) (.refl _))

theorem inTurn_twice : ∃ one other, Make.InTurn { catalog := Spin.registry } [one, other]
      ∧ one.cell = ⟨Spin.proc, ⟨[], none⟩, none, .compiled (loading "Spin" false (outerFunction 0))⟩
      ∧ other.cell
        = ⟨Spin.proc, ⟨[], none⟩, none, .compiled (loading "Spin" false (outerFunction 3))⟩ := by
  obtain ⟨one, compiles, oneMethod, oneType, oneSignature⟩ := declaration_source 0
  obtain ⟨other, compilesToo, otherMethod, otherType, otherSignature⟩ := declaration_source 3
  have second : Make.InTurn ⟨Spin.registry, ⟨0, 3⟩⟩ [other] :=
    .compiled compilesToo .refl (.done _)
  have first : (workspace (0 + 3)).numbering.units ≤ 3 := Nat.le_refl 3
  refine ⟨one, other, .compiled compiles first second, ?_, ?_⟩
  · rw [CompiledFunction.cell, oneMethod, oneType, oneSignature]
  · rw [CompiledFunction.cell, otherMethod, otherType, otherSignature]

end Nest

/-- A source is compiled twice, and the two functions are called.  A second call of
one pushes what the first did, a call of the other pushes something else. -/
theorem nest_functions_identified : ∃ one other,
    Make.InTurn { catalog := Spin.registry } [one, other]
      ∧ (∀ lambda, one.method.Contains lambda -> ¬ other.method.Contains lambda)
      ∧ ∀ host, ∃ first ref next,
        Machine.Leads [one, other]
            (.calling ⟨0⟩ [] { functions := #[one.cell, other.cell] }) first
          ∧ first.AtLoad (Nest.outerFunction 0) ∧ first.Pushes host ref next
          ∧ (next.heap.function ref).target = some (.object (.closure 3))
          ∧ (∃ second last, Machine.Leads [one, other] next second
            ∧ second.Pushes host ref last)
          ∧ ∃ second otherRef last,
            Machine.Leads [one, other] next second ∧ second.AtLoad (Nest.outerFunction 3)
              ∧ second.Pushes host otherRef last ∧ otherRef ≠ ref := by
  obtain ⟨one, other, compiled, isOne, isOther⟩ := Nest.inTurn_twice
  let heap : Heap := { functions := #[one.cell, other.cell] }
  have nothing (cell : CellId) : heap.delegates[cell]? = none := Std.HashMap.getElem?_empty
  have fresh : heap.Fresh [one, other] := by
    refine ⟨nothing, ?_⟩
    intro cell method member isBody
    rcases List.mem_cons.mp (Array.mem_toList_iff.mpr member) with rfl | behind
    · exact ⟨one, List.mem_cons_self, FunctionBody.compiled.inj isBody⟩
    · cases List.mem_singleton.mp behind
      exact ⟨other, List.mem_cons_of_mem one List.mem_cons_self, FunctionBody.compiled.inj isBody⟩
  obtain ⟨_, apart, loads⟩ := Make.functions_identified compiled fresh
  refine ⟨one, other, compiled, (List.pairwise_cons.mp apart).1 other List.mem_cons_self, ?_⟩
  intro host
  have reached : Machine.Leads [one, other] (.calling ⟨0⟩ [] heap)
      (Nest.entered (Nest.outerFunction 0) heap) := Nest.leads_entered isOne
  have atOne := Nest.atLoad_entered (Nest.outerFunction 0) heap
  obtain ⟨_, ref, next, pushes, _, stays, same⟩ := loads ⟨0⟩ [] _ _ host reached atOne
  have isHeap : next.heap.functions = heap.functions.push (Nest.outerFunction 0).function := by
    obtain ⟨_, pushesToo, isHeap⟩ := atOne.pushes
    rw [(pushes.unique pushesToo).2, isHeap]
    exact congrArg (fun made => made.2.functions) (Heap.delegate_new (nothing _))
  have again {index : Nat} {made : CompiledLambda} (found : next.heap.function ⟨index⟩
      = ⟨Spin.proc, ⟨[], none⟩, none, .compiled (Nest.loading "Spin" false made)⟩) :
      Machine.Leads [one, other] next (Nest.entered made next.heap) :=
    (Nest.leads_again pushes).trans (Nest.leads_entered found)
  have oneAgain := @again 0 _ (by rw [Heap.function, isHeap]; exact isOne)
  have otherNow := @again 1 _ (by rw [Heap.function, isHeap]; exact isOther)
  refine ⟨_, ref, next, reached, atOne, pushes, ?_, ?_, ?_⟩
  · exact congrArg FunctionCell.target (stays next (.refl _))
  · have atLoad := Nest.atLoad_entered (Nest.outerFunction 0) next.heap
    obtain ⟨last, pushesToo, _⟩ := atLoad.pushes
    have isSame := (same _ _ _ _ _ oneAgain atLoad pushesToo).mpr rfl
    exact ⟨_, last, oneAgain, isSame ▸ pushesToo⟩
  · have atLoad := Nest.atLoad_entered (Nest.outerFunction 3) next.heap
    obtain ⟨last, pushesOther, _⟩ := atLoad.pushes
    refine ⟨_, _, last, otherNow, atLoad, pushesOther, ?_⟩
    intro isSame
    have sameUnit := congrArg (fun lambda => lambda.unit.id)
      ((same _ _ _ _ _ otherNow atLoad pushesOther).mp isSame)
    exact absurd sameUnit (by decide)

end OpMachine
