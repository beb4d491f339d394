import OpMachine.Proofs.CallDepth
import OpMachine.Proofs.InstructionReach
import OpMachine.Proofs.Captures
import OpMachine.Proofs.FunctionRegistration

namespace OpMachine

/-!
# Isolated functions

A function captures nothing, and its code neither reads nor writes the slot of
the receiver, which is the only thing besides the arguments that a call hands
over.  So a call of it depends on its arguments and on the heap: two runs that
differ in the receiver, and in what waits for the result, go the same way step
by step.
-/

/-! ## The slot of the receiver -/

/-- An instruction that neither reads nor writes the slot of the receiver. -/
def Instruction.SparesReceiver (instruction : Instruction) : Prop :=
  instruction.opcode = .getArg ∨ instruction.opcode = .setArg ->
    (instruction.byteAt 0).toNat ≠ 0

/-- Arguments that differ in the first slot only. -/
structure Frame.SlotsAlike (one other : Array Value) : Prop where
  size : other.size = one.size
  slots : ∀ index, index ≠ 0 -> other[index]? = one[index]?

namespace Frame

variable {one other : Array Value}

theorem SlotsAlike.push (alike : SlotsAlike one other) (value : Value) :
    SlotsAlike (one.push value) (other.push value) where
  size := by rw [Array.size_push, Array.size_push, alike.size]
  slots := by
    intro index isBehind
    rw [Array.getElem?_push, Array.getElem?_push, alike.size, alike.slots index isBehind]

theorem SlotsAlike.set (alike : SlotsAlike one other) (slot : Nat)
    (value : Value) : SlotsAlike (one.setIfInBounds slot value) (other.setIfInBounds slot value) where
  size := by rw [Array.size_setIfInBounds, Array.size_setIfInBounds, alike.size]
  slots := by
    intro index isBehind
    rw [Array.getElem?_setIfInBounds, Array.getElem?_setIfInBounds, alike.size,
      alike.slots index isBehind]

/-- Copies that are stored behind the receiver do not depend on it. -/
theorem SlotsAlike.copyAll (alike : SlotsAlike one other) (values : List Value) (heap : Heap) :
    SlotsAlike (copyAll values one heap).1 (copyAll values other heap).1
      ∧ (copyAll values other heap).2 = (copyAll values one heap).2 := by
  induction values generalizing one other heap with
  | nil => exact ⟨alike, rfl⟩
  | cons _ _ ih => exact ih (alike.push _) _

/-- Two frames of a method that differ in the slot of the receiver only. -/
structure Twin (method : CompiledMethod) (one other : Frame) : Prop where
  isMethod : one.method = method
  others : other = { one with arguments := other.arguments }
  alike : SlotsAlike one.arguments other.arguments

theorem Twin.sameMethod {method : CompiledMethod} {one other : Frame}
    (twin : one.Twin method other) : other.method = one.method := by
  rw [twin.others]

end Frame

/-! ## One instruction in two frames -/

/-- What two frames of a method go on with: the same, or a call of the method on
either receiver. -/
inductive Continuation.Follows (method : CompiledMethod) : Continuation -> Continuation -> Prop
  | same (continuation : Continuation) : Follows method continuation continuation
  | again (receiver other : Option Value) (arguments : List Value) (keep : Bool) :
      Follows method (.call (.method method receiver arguments) keep)
        (.call (.method method other arguments) keep)

namespace Execute

variable {α β : Type} {method : CompiledMethod} {one other : Frame} {heap : Heap}
  {action : Execute α} {slot : UInt8}

/-- What a part of an instruction comes to in two frames of a method. -/
inductive Follows (method : CompiledMethod) (Same : α -> α -> Prop) :
    EStateM.Result RuntimeError Running α -> EStateM.Result RuntimeError Running α -> Prop
  | ok {one other : Frame} {heap : Heap} (twin : one.Twin method other) (same : Same value second) :
      Follows method Same (.ok value ⟨one, heap⟩) (.ok second ⟨other, heap⟩)
  | error (error : RuntimeError) (one other : Frame) (heap : Heap) :
      Follows method Same (.error error ⟨one, heap⟩) (.error error ⟨other, heap⟩)

theorem Follows.bind (follows : Follows method Eq (action first) (action second))
    (rest : ∀ value one other heap, Frame.Twin method one other ->
      Follows method Same (next value ⟨one, heap⟩) (next value ⟨other, heap⟩)) :
    Follows method Same ((action >>= next) first) ((action >>= next) second) := by
  cases ran : action first with rw [ran] at follows
  | error error =>
    generalize result : action second = outcome at follows
    cases follows with
    | error =>
      rw [bind_of_error ran, bind_of_error result]
      exact .error error _ _ _
  | ok value =>
    generalize result : action second = outcome at follows
    cases follows with
    | ok twin same =>
      cases same
      rw [bind_of_ok ran, bind_of_ok result]
      exact rest value _ _ _ twin

theorem Aloof.follows (aloof : Aloof heap Good action) (same : ∀ value, Same value value)
    (twin : one.Twin method other) :
    Follows method Same (action ⟨one, heap⟩) (action ⟨other, heap⟩) := by
  have ⟨blind, _, stays, _⟩ := aloof ⟨one, heap⟩ (.refl heap)
  have own : action ⟨one, heap⟩ = under one.arguments action ⟨one, heap⟩ := blind one.arguments
  have others : (⟨other, heap⟩ : Running) = Running.withArguments ⟨one, heap⟩ other.arguments :=
    congrArg (Running.mk · heap) twin.others
  rw [others, blind other.arguments]
  unfold under at own ⊢
  unfold left at stays
  cases ran : action ⟨one, heap⟩ with
  | error error => exact .error error _ _ _
  | ok value after =>
    simp only [ran] at own stays
    have arguments : after.frame.arguments = one.arguments := by
      injection own with _ isAfter
      rw [isAfter]
      rfl
    refine .ok ⟨stays.trans twin.isMethod, rfl, ?_⟩ (same value)
    rw [arguments]
    exact twin.alike

theorem follows_invalid (reason : String) (twin : one.Twin method other) :
    Follows method Same (invalid reason ⟨one, heap⟩) (invalid reason ⟨other, heap⟩) := by
  rcases other with ⟨_, arguments, locals, operands, position⟩
  cases twin.others
  exact .error _ _ _ _

theorem follows_getArgument (isBehind : slot.toNat ≠ 0) (twin : one.Twin method other) :
    Follows method Eq (getArgument slot ⟨one, heap⟩) (getArgument slot ⟨other, heap⟩) := by
  unfold getArgument
  rw [frame_bind, frame_bind, twin.alike.slots _ isBehind]
  cases one.arguments[slot.toNat]? with
  | some => exact .ok twin rfl
  | none => exact follows_invalid _ twin

theorem follows_setArgument (value : Value) (twin : one.Twin method other) :
    Follows method Eq (setArgument slot value ⟨one, heap⟩) (setArgument slot value ⟨other, heap⟩) := by
  unfold setArgument
  rw [frame_bind, frame_bind, twin.alike.size]
  split
  · exact .ok ⟨twin.isMethod, congrArg (fun frame : Frame => { frame with
      arguments := other.arguments.setIfInBounds slot.toNat value }) twin.others,
      twin.alike.set _ _⟩ rfl
  · exact follows_invalid _ twin

theorem follows_callSelf (twin : one.Twin method other) :
    Follows method (Continuation.Follows method) (callSelf ⟨one, heap⟩) (callSelf ⟨other, heap⟩) := by
  refine (Aloof.readByte.follows (fun _ => rfl) twin).bind fun count one other heap twin => ?_
  refine ((Aloof.popMany _).follows (fun _ => rfl) twin).bind fun arguments one other heap twin => ?_
  refine .ok twin ?_
  rw [twin.sameMethod, twin.isMethod]
  exact .again _ _ _ _

theorem follows_loadDelegate (twin : one.Twin method other) :
    Follows method (Continuation.Follows method) (loadDelegate ⟨one, heap⟩)
      (loadDelegate ⟨other, heap⟩) := by
  refine (Aloof.readByte.follows (fun _ => rfl) twin).bind fun index one other heap twin => ?_
  rw [frame_bind, frame_bind, twin.sameMethod]
  cases one.method.lambdas[index.toNat]? with
  | some lambda =>
    exact .ok ⟨twin.isMethod, congrArg (fun frame : Frame => { frame with
      operands := .function (heap.delegate lambda).1 :: frame.operands }) twin.others,
      twin.alike⟩ (.same _)
  | none => exact follows_invalid _ twin

/-- An instruction that spares the receiver does the same in both frames. -/
theorem follows_instruction (catalog : Catalog) {instruction : Instruction}
    (twin : one.Twin method other)
    (holds : one.method.chunk.Holds one.position instruction.bytes)
    (spares : instruction.SparesReceiver) :
    Follows method (Continuation.Follows method) (Execute.instruction catalog ⟨one, heap⟩)
      (Execute.instruction catalog ⟨other, heap⟩) := by
  rcases other with ⟨_, arguments, locals, operands, position⟩
  cases twin.others
  have pushed : Frame.Twin method { one with position := one.position + 1 }
      { one with arguments, position := one.position + 1 } := ⟨twin.isMethod, rfl, twin.alike⟩
  have behind : Frame.Twin method { one with position := one.position + 2 }
      { one with arguments, position := one.position + 2 } := ⟨twin.isMethod, rfl, twin.alike⟩
  have operand (arguments : Array Value) (hasOperand : 0 < instruction.opcode.operandSize) :
      readByte ⟨{ one with arguments, position := one.position + 1 }, heap⟩
        = .ok (instruction.byteAt 0) ⟨{ one with arguments, position := one.position + 2 }, heap⟩ := by
    have here : one.method.chunk.Holds (one.position + 1) [instruction.byteAt 0] :=
      ⟨Chunk.byte?_operand holds hasOperand, trivial⟩
    exact readByte_of_holds here
  have otherRun : Execute.instruction catalog ⟨{ one with arguments }, heap⟩ = _ :=
    instruction_of_holds holds
  rw [instruction_of_holds holds, otherRun]
  cases named : instruction.opcode with
  | getArg =>
    have unfolded : operation catalog .getArg = readByte >>= fun slot =>
        pushing (getArgument slot) := pushing_bind readByte _
    have hasOperand : 0 < instruction.opcode.operandSize := named ▸ Nat.zero_lt_one
    rw [unfolded, bind_of_ok (operand one.arguments hasOperand),
      bind_of_ok (operand arguments hasOperand)]
    refine (follows_getArgument (spares (.inl named)) behind).bind fun value _ _ _ twin => ?_
    exact ((Aloof.push value).follows (fun _ => rfl) twin).bind fun _ _ _ _ twin => .ok twin (.same _)
  | setArg =>
    have unfolded : operation catalog .setArg = readByte >>= fun slot =>
        popCopied >>= fun value => setArgument slot value >>= fun _ => pure .next := rfl
    have hasOperand : 0 < instruction.opcode.operandSize := named ▸ Nat.zero_lt_one
    rw [unfolded, bind_of_ok (operand one.arguments hasOperand),
      bind_of_ok (operand arguments hasOperand)]
    refine (Aloof.popCopied.follows (fun _ => rfl) behind).bind fun value _ _ _ twin => ?_
    refine (follows_setArgument value twin).bind fun _ _ _ _ twin => ?_
    exact .ok twin (.same _)
  | callSelf => exact follows_callSelf pushed
  | loadDelegate => exact follows_loadDelegate pushed
  | callUnit => exact Aloof.callUnit.follows (fun _ => .same _) pushed
  | _ => exact (Aloof.operation catalog rfl).follows (fun _ => .same _) pushed

end Execute

/-! ## Two runs side by side -/

theorem Stance.Effect.stays {before after : Stance}
    (effect : before.Effect catalog instruction continuation after)
    (goesOn : ∀ value, continuation ≠ .leave value) :
    before.Same after ∧ after.position ∈ instruction.successors before.position := by
  cases effect with
  | next _ goes _ moves => exact ⟨moves.same, goes⟩
  | call still goes => exact ⟨⟨by rw [still], by rw [still], by rw [still]⟩, goes⟩
  | leave => exact absurd rfl (goesOn _)

/-- The code of a method decodes, and if it has a receiver it leaves the slot of
the receiver alone. -/
def CompiledMethod.Isolated (catalog : Catalog) (strict : Bool) (method : CompiledMethod) : Prop :=
  ∃ instructions, method.Decodes catalog strict instructions ∧ (method.hasReceiver = true ->
      ∀ instruction, instruction ∈ instructions -> instruction.SparesReceiver)

/-- Two frames of a method at one of its instructions that differ in the slot of
the receiver only. -/
structure Frame.Beside (catalog : Catalog) (method : CompiledMethod) (one other : Frame) : Prop
    extends one.Twin method other where
  inOrder : one.InOrder (CompiledMethod.Isolated catalog false) (fun _ _ => True) 0

inductive Control.Follows (catalog : Catalog) (method : CompiledMethod) : Control -> Control -> Prop
  | same (control : Control) : Follows catalog method control control
  | frame {one other : Frame} (beside : one.Beside catalog method other) :
      Follows catalog method (.instruction one) (.instruction other)
  | call (receiver other : Option Value) (arguments : List Value) :
      Follows catalog method (.call (.method method receiver arguments))
        (.call (.method method other arguments))

inductive Activation.Follows (catalog : Catalog) (method : CompiledMethod) :
    Activation -> Activation -> Prop
  | same (activation : Activation) : Follows catalog method activation activation
  | frame {one other : Frame} (beside : one.Beside catalog method other) (keep : Bool) :
      Follows catalog method (.frame one keep) (.frame other keep)

/-- Activations that follow others, on top of some more. -/
inductive Activation.FollowOn (catalog : Catalog) (method : CompiledMethod)
    (below : List Activation) : List Activation -> List Activation -> Prop
  | nil : FollowOn catalog method below [] below
  | cons {one other : List Activation} (top : first.Follows catalog method second)
      (rest : FollowOn catalog method below one other) :
      FollowOn catalog method below (first :: one) (second :: other)

namespace Machine

/-- A machine does what another one does, with another receiver of a method and
with more activations at the bottom. -/
structure Follows (catalog : Catalog) (method : CompiledMethod) (below : List Activation)
    (one other : Machine) : Prop where
  control : one.control.Follows catalog method other.control
  waiting : Activation.FollowOn catalog method below one.waiting other.waiting
  depth : other.depth = one.depth
  heap : other.heap = one.heap

/-- Two steps lead to machines that follow each other. -/
inductive StepsAlike (catalog : Catalog) (method : CompiledMethod) (below : List Activation) :
    Progress -> Progress -> Prop
  | running {one other : Machine} (follows : one.Follows catalog method below other) :
      StepsAlike catalog method below (.running one) (.running other)

section

variable {host : Host} {method : CompiledMethod} {below one other : List Activation} {depth : Nat}
  {heap : Heap} (waiting : Activation.FollowOn host.catalog method below one other)

include waiting

theorem stepsAlike_refuse (error : RuntimeError) (depth : Nat) (heap : Heap) :
    StepsAlike host.catalog method below (refuse error one depth heap)
      (refuse error other depth heap) :=
  .running ⟨.same _, waiting, rfl, rfl⟩

theorem stepsAlike_hostStep (counts : Bool) (outcome : HostStep) :
    StepsAlike host.catalog method below (hostStep counts one depth outcome)
      (hostStep counts other depth outcome) := by
  cases outcome with
  | ended => exact .running ⟨.same _, waiting, rfl, rfl⟩
  | calling => exact .running ⟨.same _, .cons (.same _) waiting, rfl, rfl⟩

/-- The same thing done above two lists of activations. -/
theorem stepsAlike_above (above : WorksAbove outcome) :
    StepsAlike host.catalog method below (outcome one) (outcome other) := by
  obtain ⟨⟨control, top, depth, heap⟩, leads⟩ := above
  rw [leads, leads]
  refine .running ⟨.same _, ?_, rfl, rfl⟩
  clear leads
  induction top with
  | nil => exact waiting
  | cons _ _ ih => exact .cons (.same _) ih

theorem stepsAlike_callAgain (code : method.Throughout (CompiledMethod.Isolated host.catalog false))
    (receiver second : Option Value) (arguments : List Value) :
    StepsAlike host.catalog method below (callMethod host method receiver arguments one depth heap)
      (callMethod host method second arguments other depth heap) := by
  unfold callMethod
  split
  · exact stepsAlike_refuse waiting _ depth heap
  · by_cases count : arguments.length = method.parameterCount
    · have enters : Frame.enter method receiver arguments heap = .ok _ := if_pos count
      have entersAgain : Frame.enter method second arguments heap = .ok _ := if_pos count
      rw [enters, entersAgain]
      obtain ⟨_, slots, locals, _⟩ := Frame.enter_ok enters
      obtain ⟨instructions, decodes, _⟩ := code.here
      have first : Frame.SlotsAlike (if method.hasReceiver then #[receiver.getD .null] else #[])
          (if method.hasReceiver then #[second.getD .null] else #[]) := by
        cases method.hasReceiver with
        | false => exact ⟨rfl, fun _ _ => rfl⟩
        | true =>
          refine ⟨rfl, fun index isBehind => ?_⟩
          cases index with
          | zero => exact absurd rfl isBehind
          | succ => rfl
      have ⟨alike, sameHeap⟩ := first.copyAll arguments heap
      exact .running ⟨.frame ⟨⟨rfl, rfl, alike⟩, ⟨code, slots, locals, decodes.start, trivial⟩⟩,
        waiting, rfl, sameHeap⟩
    · have fails : Frame.enter method receiver arguments heap = .error _ := if_neg count
      have failsAgain : Frame.enter method second arguments heap = .error _ := if_neg count
      rw [fails, failsAgain]
      exact stepsAlike_refuse waiting _ depth heap

theorem stepsAlike_beside (hasReceiver : method.hasReceiver = true) {frame second : Frame}
    (beside : frame.Beside host.catalog method second) :
    StepsAlike host.catalog method below (instruction host frame one depth heap)
      (instruction host second other depth heap) := by
  obtain ⟨instructions, decodes, spares⟩ := beside.inOrder.code.here
  obtain ⟨instruction, placed⟩ := decodes.exists_instruction beside.inOrder.boundary
  have follows := @Execute.follows_instruction _ _ _ heap host.catalog _ beside.toTwin
    (decodes.holds placed)
    (spares (beside.isMethod ▸ hasReceiver) instruction (Instruction.mem_of_mem_place placed))
  have upkeep : Frame.Upkeep host.catalog (CompiledMethod.Isolated host.catalog false) _ :=
    .of_decodes fun _ ⟨instructions, decodes, _⟩ => ⟨instructions, decodes⟩
  obtain ⟨_, _, _, stops, executes⟩ := beside.inOrder.executes upkeep heap
  unfold Machine.instruction
  cases ran : Execute.instruction host.catalog ⟨frame, heap⟩ with
  | error error =>
    rw [ran] at follows
    generalize Execute.instruction host.catalog ⟨second, heap⟩ = outcome at follows ⊢
    cases follows with
    | error => exact stepsAlike_refuse waiting error _ _
  | ok continuation after =>
    rw [ran] at follows executes
    generalize Execute.instruction host.catalog ⟨second, heap⟩ = outcome at follows ⊢
    cases follows with
    | ok twin same =>
      have stays (goesOn : ∀ value, continuation ≠ .leave value) :
          Frame.InOrder (CompiledMethod.Isolated host.catalog false) (fun _ _ => True) _ 0 :=
        have moved := executes.stays goesOn
        beside.inOrder.after moved.1.method moved.1.arguments moved.1.locals
          (stops _ moved.2) trivial
      cases same with
      | same =>
        cases continuation with
        | next => exact .running ⟨.frame ⟨twin, stays nofun⟩, waiting, rfl, rfl⟩
        | call _ keep =>
          exact .running ⟨.same _, .cons (.frame ⟨twin, stays nofun⟩ keep) waiting, rfl, rfl⟩
        | leave => exact .running ⟨.same _, waiting, rfl, rfl⟩
      | again receiver other arguments keep =>
        exact .running ⟨.call receiver other arguments,
          .cons (.frame ⟨twin, stays nofun⟩ keep) waiting, rfl, rfl⟩

/-- A result is handed to activations that follow each other. -/
theorem stepsAlike_give {first second : Activation} (top : first.Follows host.catalog method second)
    (result : Except RuntimeError Value) :
    StepsAlike host.catalog method below (give result (first :: one) depth heap)
      (give result (second :: other) depth heap) := by
  cases top with
  | same =>
    cases first with
    | host _ counts => exact stepsAlike_hostStep waiting counts _
    | frame =>
      cases result with
      | ok => exact .running ⟨.same _, waiting, rfl, rfl⟩
      | error error => exact stepsAlike_refuse waiting error _ heap
  | frame beside keep =>
    cases result with
    | error error => exact stepsAlike_refuse waiting error _ heap
    | ok value =>
      have ⟨twin, inOrder⟩ := beside
      cases keep with
      | false => exact .running ⟨.frame beside, waiting, rfl, rfl⟩
      | true =>
        refine .running ⟨.frame ⟨⟨twin.isMethod, ?_, twin.alike⟩, ⟨inOrder.code,
          inOrder.arguments, inOrder.locals, inOrder.boundary, trivial⟩⟩, waiting, rfl, rfl⟩
        exact congrArg (fun frame : Frame => { frame with
          operands := value :: frame.operands }) twin.others

end

section

variable {host : Host} {method : CompiledMethod} {below : List Activation} {one other : Machine}

variable (follows : one.Follows host.catalog method below other)
  (code : method.Throughout (CompiledMethod.Isolated host.catalog false))
  (hasReceiver : method.hasReceiver = true)

include follows code hasReceiver

/-- One step of two machines.  If the first one is about to end with a result,
the second one hands it to what waits at the bottom. -/
theorem Follows.step : (∃ result, one.control = .give result ∧ one.waiting = []
      ∧ other = ⟨.give result, below, one.depth, one.heap⟩)
      ∨ StepsAlike host.catalog method below (one.step host) (other.step host) := by
  rcases one with ⟨control, waiting, depth, heap⟩
  rcases other with ⟨otherControl, otherWaiting, _, _⟩
  have ⟨controls, activations, sameDepth, sameHeap⟩ := follows
  cases sameDepth
  cases sameHeap
  cases controls with
  | frame beside => exact .inr (stepsAlike_beside activations hasReceiver beside)
  | call receiver other arguments =>
    exact .inr (stepsAlike_callAgain activations code receiver other arguments)
  | same =>
    by_cases gives : ∃ result, control = .give result
    · obtain ⟨result, rfl⟩ := gives
      cases activations with
      | nil => exact .inl ⟨result, rfl, rfl, rfl⟩
      | cons top rest => exact .inr (stepsAlike_give rest top result)
    · exact .inr (stepsAlike_above activations
        (@worksAbove_step host depth heap control (not_exists.mp gives)))

/-- A run that follows one that ends gives its result, or its failure, to what
waits at the bottom. -/
theorem Follows.ends (level : one.depth = base + one.level) (ends : Ends host one ending) :
    Reaches host other ⟨.give ending.result, below, base, ending.heap⟩ := by
  obtain ⟨steps, ran⟩ := ends
  induction steps generalizing one other with
  | zero => cases ran
  | succ _ ih =>
    rcases follows.step code hasReceiver with ⟨value, control, waiting, rfl⟩ | alike
    · rcases one with ⟨_, _, depth, heap⟩
      cases control
      cases waiting
      cases ran
      rw [show depth = base from level]
      exact .refl _
    · generalize taken : one.step host = progress, takenToo : other.step host = second at alike
      cases alike with
      | running later =>
        rw [run_succ taken] at ran
        have nextLevel : AtLevel base (one.step host) := atLevel_step level
        rw [taken] at nextLevel
        exact .step takenToo (ih later nextLevel ran)

theorem Follows.unfinished (unfinished : run host steps one = none) :
    run host steps other = none := by
  induction steps generalizing one other with
  | zero => rfl
  | succ _ ih =>
    rcases follows.step code hasReceiver with ⟨value, control, waiting, rfl⟩ | alike
    · rcases one with ⟨_, _, depth, heap⟩
      cases control
      cases waiting
      cases unfinished
    · generalize taken : one.step host = progress, takenToo : other.step host = second at alike
      cases alike with
      | running later =>
        rw [run_succ taken] at unfinished
        exact (run_succ takenToo _).trans (ih later unfinished)

end

end Machine

/-! ## Everything that a declaration compiles to -/

theorem CompiledMethod.Isolated.relax {method : CompiledMethod}
    (isolated : method.Isolated catalog strict) : method.Isolated catalog false := by
  obtain ⟨instructions, decodes, spares⟩ := isolated
  cases strict with
  | false => exact ⟨instructions, decodes, spares⟩
  | true => exact ⟨instructions, decodes.relax, spares⟩

namespace Make

end Make

namespace Nest

variable {symbol : MethodSymbol} {operation : Operation}

theorem mem_of_hasBody (hasBody : source.HasBody symbol operation) :
    operation ∈ [body, load 3 (.block {} []), .block {} []] := by
  refine hasBody.of_singleton (fun _ operation =>
    operation ∈ [body, load 3 (.block {} []), .block {} []]) (.head _) fun {_ _ node} known member => ?_
  simp only [List.mem_cons, List.not_mem_nil, or_false] at known ⊢
  rcases known with rfl | rfl | rfl
  · have outer : node ∈ [⟨function 3, .block {} []⟩, ⟨function 2, load 3 (.block {} [])⟩] := member
    simp only [List.mem_cons, List.not_mem_nil, or_false] at outer
    rcases outer with rfl | rfl
    · exact .inr (.inr rfl)
    · exact .inr (.inl rfl)
  · cases List.mem_singleton.mp (show node ∈ [⟨function 3, .block {} []⟩] from member)
    exact .inr (.inr rfl)
  · cases (show node ∈ [] from member)

theorem throughout_hasOrdinal (hasBody : source.HasBody symbol operation) :
    operation.Throughout (Operation.HasOrdinal symbol) := by
  have empty : (Operation.block {} []).Throughout (Operation.HasOrdinal symbol) :=
    .intro trivial nofun
  have around {outer inner : Operation} (here : outer.HasOrdinal symbol)
      (only : outer.children = [inner]) (inside : inner.Throughout (Operation.HasOrdinal symbol)) :
      outer.Throughout (Operation.HasOrdinal symbol) := by
    refine .intro here fun child below => ?_
    rw [only] at below
    cases List.mem_singleton.mp below
    exact inside
  have loads {number : Nat} {inside : Operation}
      (inner : inside.Throughout (Operation.HasOrdinal symbol)) :
      (load number inside).Throughout (Operation.HasOrdinal symbol) :=
    around trivial rfl (around trivial rfl (around trivial rfl inner))
  have member := mem_of_hasBody hasBody
  simp only [List.mem_cons, List.not_mem_nil, or_false] at member
  rcases member with rfl | rfl | rfl
  · exact loads (loads empty)
  · exact loads empty
  · exact empty

end Nest

end OpMachine
