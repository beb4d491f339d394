import OpMachine.Proofs.BaseChains
import OpMachine.Proofs.InstructionEffects
import OpMachine.Proofs.SourceCalls

namespace OpMachine

/-!
# Machines in order

A machine is in order when every frame in it stands at an instruction of code
that decodes, with as many slots as its method says, and every compiled
function on the heap has such code too.  A step keeps a machine in order or
ends the run, and a run that ends with a failure blames the code only in one of
two ways: the stack was too short for an instruction, or an instruction named
an argument that the method does not have.

What else is known of a frame is a parameter, `Fine`.  It speaks of the frame
and of the number of results the frame waits for, and it has to survive the
effects of single instructions.
-/

theorem Chunk.Holds.instruction_eq {chunk : Chunk} {one other : Instruction}
    (holds : chunk.Holds position one.bytes) (holdsOther : chunk.Holds position other.bytes) :
    one = other := by
  have operands : ∀ (first second : List UInt8) (offset : Nat),
      first.length = second.length -> chunk.Holds offset first -> chunk.Holds offset second ->
        first = second := by
    intro first
    induction first with
    | nil => exact fun second _ length _ _ => (List.length_eq_zero_iff.mp length.symm).symm
    | cons byte _ ih =>
      intro second offset length firstHolds secondHolds
      cases second with
      | nil => cases length
      | cons head tail =>
        have sameByte : byte = head :=
          Option.some.inj (firstHolds.1.symm.trans secondHolds.1)
        rw [sameByte, ih tail (offset + 1) (Nat.succ.inj length) firstHolds.2 secondHolds.2]
  have sameOpcode : one.opcode = other.opcode := by
    apply Option.some.inj
    rw [← Opcode.ofByte?_toByte, ← Opcode.ofByte?_toByte]
    exact congrArg Opcode.ofByte? (Option.some.inj (holds.1.symm.trans holdsOther.1))
  rcases one with ⟨opcode, bytes, complete⟩
  rcases other with ⟨_, others, othersComplete⟩
  cases sameOpcode
  cases operands bytes others (position + 1) (complete.trans othersComplete.symm) holds.2
    holdsOther.2
  rfl

/-- An instruction that is admitted has its effect. -/
theorem Execute.yields_operation {stance : Stance} {instruction : Instruction}
    (holds : stance.method.chunk.Holds stance.position instruction.bytes)
    (admitted : stance.method.admits catalog true instruction = true)
    (arguments : stance.arguments.size = stance.method.argumentSlots)
    (locals : stance.locals.size = stance.method.localCount)
    (leads : instruction.opcode.isJump = true ->
      ∃ target, instruction.target? stance.position = some target) :
    Yields (instruction.takes ≤ stance.operands.length) (operation catalog instruction.opcode)
      { stance with position := stance.position + 1 } (stance.Effect catalog instruction) := by
  have performing {opcode : Opcode} (named : instruction.opcode = opcode)
      (performs : stance.Performs catalog opcode (operation catalog opcode)) :
      Yields (instruction.takes ≤ stance.operands.length) (operation catalog opcode)
        { stance with position := stance.position + 1 } (stance.Effect catalog instruction) :=
    performs instruction named holds admitted
  cases named : instruction.opcode with refine performing named ?_
  | constant => exact performs_smallConstant
  | constantWide => exact performs_wideConstant
  | pushDefault => exact performs_pushDefault
  | pop => exact performs_drop
  | dup => exact performs_dup
  | getArg => exact performs_getArg arguments
  | setArg => exact performs_setArg arguments
  | getLocal => exact performs_getLocalSlot locals
  | setLocal => exact performs_setLocalSlot locals
  | convert => exact performs_convert
  | jump => exact performs_jump
  | jumpIfFalse => exact performs_jumpIfFalse
  | loop =>
    intro other isLoop stands _
    cases holds.instruction_eq stands
    exact .loop holds isLoop (leads (named ▸ rfl))
  | callStatic => exact performs_callStatic
  | callMethod => exact performs_callOnReceiver (.inl rfl)
  | callVirtual => exact performs_callOnReceiver (.inr rfl)
  | callUnit => exact performs_callUnit
  | callSelf => exact performs_callSelf
  | new => exact performs_new
  | returnValue => exact performs_returnValue
  | returnVoid =>
    rintro ⟨_, _, _⟩ ⟨⟩ _ _
    exact .leave rfl rfl (.inr trivial)
  | getField => exact performs_getField
  | setField => exact performs_setField
  | getProperty => exact performs_getProperty (.inl rfl)
  | getPropertyVirtual => exact performs_getProperty (.inr rfl)
  | getStaticProperty => exact performs_getStaticProperty
  | setProperty => exact performs_setProperty (.inl rfl)
  | setPropertyVirtual => exact performs_setProperty (.inr rfl)
  | setStaticProperty => exact performs_setStaticProperty
  | newArray => exact performs_newArray
  | loadElement => exact performs_loadElement
  | storeElement => exact performs_storeElement
  | loadDelegate => exact performs_loadDelegate
  | invokeDelegate => exact performs_invokeDelegate
  | pushNull | pushTrue | pushFalse =>
    rintro ⟨_, _, _⟩ ⟨⟩ _ _
    exact .pushedAbove _ (.head _) rfl rfl rfl rfl (.inr trivial)
  | add | sub | mul | div | rem | bitAnd | bitOr | bitXor | shl | shr =>
    rintro ⟨_, _, _⟩ ⟨⟩ _ _
    exact .onTwo (Arithmetic.spares_binary _) rfl rfl rfl rfl rfl rfl
  | neg | not | bitNot =>
    rintro ⟨_, _, _⟩ ⟨⟩ _ _
    exact .onOne _ (Arithmetic.spares_unary _) (.head _) rfl rfl rfl rfl
  | eq =>
    rintro ⟨_, _, _⟩ ⟨⟩ _ _
    exact .onTwo (fun _ _ => trivial) rfl rfl rfl rfl rfl rfl
  | lt | gt =>
    rintro ⟨_, _, _⟩ ⟨⟩ _ _
    exact .onTwo (fun left right => (Arithmetic.spares_compare _ left right).bind fun _ _ => trivial)
      rfl rfl rfl rfl rfl rfl

/-! ## Positions -/

variable {instructions : List Instruction} {offset position : Nat} {slot : UInt8}
  {method : CompiledMethod}

theorem Instruction.next_mem_stops (member : (position, instruction) ∈ place offset instructions) :
    position + instruction.size ∈ stops offset instructions := by
  induction instructions generalizing offset with
  | nil => exact nomatch member
  | cons head tail ih =>
    have headSize : totalSize [head] = head.size := by
      rw [totalSize, List.flatMap_singleton, length_bytes]
    have later : stops (offset + totalSize [head]) tail ⊆ stops offset (head :: tail) :=
      stops_subset_append_right [head] tail
    rw [headSize] at later
    rcases List.mem_cons.mp member with here | behind
    · cases here
      exact later (start_mem_stops _ tail)
    · exact later (ih behind)

theorem Instruction.mem_of_mem_place (member : (position, instruction) ∈ place offset instructions) :
    instruction ∈ instructions := by
  induction instructions generalizing offset with
  | nil => exact nomatch member
  | cons head _ ih =>
    rcases List.mem_cons.mp member with here | behind
    · cases here
      exact .head _
    · exact List.mem_cons_of_mem head (ih behind)

open Instruction

namespace CompiledMethod.Decodes

variable {catalog : Catalog} {strict : Bool} {method : CompiledMethod}
  {instructions : List Instruction} {position : Nat} {instruction : Instruction}

variable (decodes : method.Decodes catalog strict instructions)

include decodes

theorem exists_instruction (stop : position ∈ method.chunk.boundaries 0) : ∃ instruction,
      (position, instruction) ∈ place 0 instructions := by
  rw [boundaries_of_values decodes.bytes] at stop
  rcases List.mem_map.mp stop with ⟨⟨_, instruction⟩, member, rfl⟩
  exact ⟨instruction, member⟩

theorem holds (member : (position, instruction) ∈ place 0 instructions) :
    method.chunk.Holds position instruction.bytes := by
  refine holds_place instructions ?_ position instruction member
  exact method.chunk.holds_of_values_eq [] _ [] (decodes.bytes.trans (List.append_nil _).symm)

theorem admits_of_mem_place (member : (position, instruction) ∈ place 0 instructions) :
    method.admits catalog strict instruction = true :=
  decodes.admitted instruction (mem_of_mem_place member)

theorem start : 0 ∈ method.chunk.boundaries 0 := by
  rcases decodes.returns with ⟨front, last, split, _⟩
  rw [boundaries_of_values decodes.bytes, split]
  cases front with
  | nil => exact List.mem_singleton_self 0
  | cons => exact .head _

theorem successors (member : (position, instruction) ∈ Instruction.place 0 instructions)
    (goes : next ∈ instruction.successors position) : next ∈ method.chunk.boundaries 0 := by
  -- Behind every instruction but the last one there is another, and the last one returns.
  have behind (isReturn : instruction.opcode ≠ .returnValue ∧ instruction.opcode ≠ .returnVoid) :
      position + instruction.size ∈ method.chunk.boundaries 0 := by
    rcases decodes.returns with ⟨front, last, split, lastReturns⟩
    rw [split, Instruction.place_append] at member
    rw [Instruction.boundaries_of_values decodes.bytes, split, Instruction.place_append,
      List.map_append]
    rcases List.mem_append.mp member with inFront | atEnd
    · exact Instruction.next_mem_stops inFront
    · cases List.mem_singleton.mp atEnd
      rcases lastReturns with named | named
      · exact absurd named isReturn.1
      · exact absurd named isReturn.2
  have jump (isJump : instruction.opcode.isJump = true)
      (isTarget : next ∈ (instruction.target? position).toList) :
      next ∈ method.chunk.boundaries 0 := by
    rcases decodes.jumps position instruction member isJump with ⟨target, found, stop⟩
    rw [found] at isTarget
    cases List.mem_singleton.mp isTarget
    exact stop
  unfold Instruction.successors at goes
  cases named : instruction.opcode with rw [named] at goes
  | jump | loop => exact jump (named ▸ rfl) goes
  | jumpIfFalse =>
    rcases List.mem_cons.mp goes with rfl | isTarget
    · exact behind (by simp [named])
    · exact jump (named ▸ rfl) isTarget
  | returnValue | returnVoid => exact nomatch goes
  | _ =>
    cases List.mem_singleton.mp goes
    exact behind (by simp [named])

end CompiledMethod.Decodes

/-! ## Frames -/

/-- How the code of a frame can be to blame for a failure. -/
def Frame.Blamed (frame : Frame) (catalog : Catalog) (instruction : Instruction)
    (error : RuntimeError) : Prop :=
  ¬ instruction.takes ≤ frame.operands.length
      ∧ (∃ offset, error = .invalidBytecode offset "stack underflow")
    ∨ frame.method.admits catalog true instruction = false
      ∧ ∃ offset, ∃ slot : UInt8, error = .invalidBytecode offset
          ("argument slot " ++ toString slot.toNat ++ " out of range")

variable {frame : Frame}

/-- An instruction that is admitted, but not strictly, names an argument that is
not there, and fails. -/
theorem Execute.blamed_of_not_admits {instruction : Instruction} (heap : Heap)
    (holds : frame.method.chunk.Holds frame.position instruction.bytes)
    (arguments : frame.arguments.size = frame.method.argumentSlots)
    (admitted : frame.method.admits catalog false instruction = true)
    (notStrictly : frame.method.admits catalog true instruction = false) :
    ∃ error after, Execute.instruction catalog ⟨frame, heap⟩ = .error error after
        ∧ heap.Unharmed after.heap ∧ frame.Blamed catalog instruction error := by
  have isArgument : instruction.opcode = .getArg ∨ instruction.opcode = .setArg := by
    unfold CompiledMethod.admits at admitted notStrictly
    cases named : instruction.opcode <;> rw [named] at admitted notStrictly
    case getArg => exact .inl rfl
    case setArg => exact .inr rfl
    all_goals
      rw [notStrictly] at admitted
      cases admitted
  have outside : ¬ (instruction.byteAt 0).toNat < frame.arguments.size := by
    rw [arguments]
    intro inside
    -- The strict check asks for nothing more than that the slot is there.
    rcases isArgument with named | named <;>
      simp [CompiledMethod.admits, named, inside] at admitted notStrictly
    rcases admitted with noReceiver | other
    · rw [notStrictly.1] at noReceiver
      cases noReceiver
    · exact other notStrictly.2
  have operand : 0 < instruction.opcode.operandSize := by
    rcases isArgument with named | named <;> rw [named] <;> exact Nat.zero_lt_one
  have here : frame.method.chunk.Holds (frame.position + 1) [instruction.byteAt 0] :=
    ⟨Chunk.byte?_operand holds operand, trivial⟩
  have reads : readByte ⟨frame.past 1, heap⟩ = .ok (instruction.byteAt 0) ⟨frame.past 2, heap⟩ :=
    readByte_of_holds here
  have complaint : frame.Blamed catalog instruction (.invalidBytecode (frame.position + 2)
      ("argument slot " ++ toString (instruction.byteAt 0).toNat ++ " out of range")) :=
    .inr ⟨notStrictly, _, _, rfl⟩
  rw [instruction_of_holds holds]
  rcases isArgument with named | named
  · rw [named]
    refine ⟨_, ⟨frame.past 2, heap⟩, ?_, .refl heap, complaint⟩
    change pushing (readByte >>= getArgument) _ = _
    rw [pushing_bind, bind_of_ok reads]
    refine bind_of_error ?_
    rw [getArgument, frame_bind, Array.getElem?_eq_none (Nat.le_of_not_lt outside)]
    rfl
  · have unfolded : operation catalog .setArg = readByte >>= fun slot =>
        popCopied >>= fun value => setArgument slot value >>= fun _ =>
          pure Continuation.next := rfl
    rw [named, unfolded, bind_of_ok reads]
    by_cases empty : frame.operands = []
    · refine ⟨.invalidBytecode (frame.position + 2) "stack underflow",
        ⟨frame.past 2, heap⟩, bind_of_error ?_, .refl heap,
        .inl ⟨?_, _, rfl⟩⟩
      · rcases frame with ⟨method, arguments, locals, operands, position⟩
        cases empty
        rfl
      · rw [empty, Instruction.takes, named]
        exact Nat.not_succ_le_zero 0
    · rcases List.exists_cons_of_ne_nil empty with ⟨value, rest, isStack⟩
      let after : Frame := frame.past 2 rest
      have pops : popCopied ⟨frame.past 2, heap⟩
          = .ok (heap.copied value).1 ⟨after, (heap.copied value).2⟩ :=
        popCopied_eq isStack
      refine ⟨_, ⟨after, (heap.copied value).2⟩, ?_, heap.unharmed_copied value, complaint⟩
      rw [bind_of_ok pops]
      refine bind_of_error ?_
      rw [setArgument, frame_bind, if_neg outside]
      rfl

variable {Property : CompiledMethod -> Prop}

theorem CompiledMethod.Throughout.here {method : CompiledMethod}
    (throughout : method.Throughout Property) : Property method := by
  cases throughout with
  | intro here => exact here

theorem CompiledMethod.Throughout.callee {method callee : CompiledMethod}
    (throughout : method.Throughout Property) (member : callee ∈ method.callees) :
    callee.Throughout Property := by
  cases throughout with
  | intro _ callees => exact callees callee member

theorem CompiledMethod.Throughout.lambda {method : CompiledMethod} {lambda : CompiledLambda}
    (throughout : method.Throughout Property) (member : lambda ∈ method.lambdas) :
    lambda.method.Throughout Property := by
  cases throughout with
  | intro _ _ lambdas => exact lambdas lambda member

/-- The compiled functions of a heap have a property throughout. -/
def Heap.Throughout (Property : CompiledMethod -> Prop) (heap : Heap) : Prop :=
  ∀ cell method, cell ∈ heap.functions -> cell.body = .compiled method ->
    method.Throughout Property

variable {receiver : Option Value}

/-- A fresh frame has the slots of its method and an empty stack. -/
theorem Frame.enter_ok {arguments : List Value}
    (enters : enter method receiver arguments heap = .ok (frame, after)) :
    frame.method = method ∧ frame.arguments.size = method.argumentSlots
      ∧ frame.locals.size = method.localCount ∧ frame.operands = [] ∧ frame.position = 0
      ∧ after.functions = heap.functions := by
  have copied : ∀ (values : List Value) (copies : Array Value) (heap : Heap),
      (copyAll values copies heap).1.size = copies.size + values.length
        ∧ (copyAll values copies heap).2.functions = heap.functions := by
    intro values
    induction values with
    | nil => exact fun _ _ => ⟨rfl, rfl⟩
    | cons value _ ih =>
      intro copies heap
      have later := ih (copies.push (heap.copied value).1) (heap.copied value).2
      refine ⟨later.1.trans ?_, later.2.trans (heap.change_copied value).functions⟩
      rw [Array.size_push, List.length_cons, Nat.add_right_comm, Nat.add_assoc]
  unfold enter at enters
  by_cases count : arguments.length = method.parameterCount
  · rw [if_pos count] at enters
    cases enters
    refine ⟨rfl, ?_, Array.size_replicate, rfl, rfl, (copied _ _ _).2⟩
    refine ((copied _ _ _).1).trans ?_
    rw [count, CompiledMethod.argumentSlots, Nat.add_comm]
    cases method.hasReceiver <;> rfl
  · rw [if_neg count] at enters
    cases enters

/-- What a property `Fine` of frames has to survive.  The number that it speaks of
counts the results that the frame waits for. -/
structure Frame.Upkeep (catalog : Catalog) (Good : CompiledMethod -> Prop)
    (Fine : Frame -> Nat -> Prop) : Prop where
  decodes : ∀ method, Good method ->
    ∃ instructions, method.Decodes catalog false instructions
  enter : ∀ frame : Frame, Good frame.method -> frame.operands = [] -> frame.position = 0 ->
    Fine frame 0
  next : ∀ (before after : Frame) (instruction : Instruction), Good before.method ->
    before.position ∈ before.method.chunk.boundaries 0 ->
    before.method.chunk.Holds before.position instruction.bytes -> Fine before 0 ->
    instruction.isCall = false -> after.method = before.method ->
    after.position ∈ instruction.successors before.position ->
    instruction.Exchanges before.operands after.operands -> Fine after 0
  call : ∀ (before after : Frame) (instruction : Instruction) (keep : Bool),
    Good before.method -> before.position ∈ before.method.chunk.boundaries 0 ->
    before.method.chunk.Holds before.position instruction.bytes ->
    Fine before 0 -> after.method = before.method ->
    after.position ∈ instruction.successors before.position ->
    instruction.Removes before.operands after.operands ->
    before.method.keeps? catalog instruction = some keep -> Fine after keep.toNat
  give : ∀ (frame : Frame) (value : Value), Good frame.method -> Fine frame 1 ->
    Fine { frame with operands := value :: frame.operands } 0

/-- A frame at an instruction of code that decodes, with the slots of its method. -/
structure Frame.InOrder (Good : CompiledMethod -> Prop) (Fine : Frame -> Nat -> Prop)
    (frame : Frame) (awaited : Nat) : Prop where
  code : frame.method.Throughout Good
  arguments : frame.arguments.size = frame.method.argumentSlots
  locals : frame.locals.size = frame.method.localCount
  boundary : frame.position ∈ frame.method.chunk.boundaries 0
  fine : Fine frame awaited

def Callee.InOrder (Good : CompiledMethod -> Prop) : Callee -> Prop
  | .method called _ _ => called.Throughout Good
  | _ => True

section

variable (Excused : RuntimeError -> Prop) (Good : CompiledMethod -> Prop)
  (Fine : Frame -> Nat -> Prop)

def Control.InOrder : Control -> Prop
  | .instruction frame => frame.InOrder Good Fine 0
  | .call callee => callee.InOrder Good
  | .give result => ∀ error, result = .error error -> Excused error

/-- A frame that waits is in order.  A host function goes on in an orderly way,
whatever heap it finds, if a failure that is answered to it is excused. -/
def Activation.InOrder : Activation -> Prop
  | .frame waiting keep => waiting.InOrder Good Fine keep.toNat
  | .host resume _ => ∀ answer later,
      (∀ error, answer = .error error -> Excused error) ->
        (resume answer later).Orderly Excused later

/-- A machine in order.  The failures on their way through it are excused: which
ones those are is a parameter that stays the same throughout a run. -/
structure Machine.InOrder (machine : Machine) : Prop where
  control : machine.control.InOrder Excused Good Fine
  waiting : ∀ activation, activation ∈ machine.waiting ->
    activation.InOrder Excused Good Fine
  functions : machine.heap.Throughout Good

end

namespace Machine

/-- A function value that is called returns something exactly if the code that
calls it counts on that. -/
def Agrees (catalog : Catalog) (Fine : Frame -> Nat -> Prop) (machine : Machine) : Prop :=
  ∀ (frame : Frame) (ref : FunctionRef) (arguments : List Value) (keep : Bool)
    (after : Running), machine.control = .instruction frame ->
    frame.method.chunk.byte? frame.position = some Opcode.invokeDelegate.toByte ->
    Execute.instruction catalog ⟨frame, machine.heap⟩
      = .ok (.call (.function ref arguments) keep) after ->
    Fine after.frame keep.toNat

/-- How the code can be to blame for a failure: a frame in order is about to
execute the instruction that fails. -/
def Blamed (catalog : Catalog) (Good : CompiledMethod -> Prop) (Fine : Frame -> Nat -> Prop)
    (machine : Machine) (error : RuntimeError) : Prop :=
  ∃ frame instruction, machine.control = .instruction frame ∧ frame.InOrder Good Fine 0
    ∧ frame.method.chunk.Holds frame.position instruction.bytes
    ∧ frame.Blamed catalog instruction error

/-- The failures of a run that are accounted for: they do not blame the code, or
the run came to the instruction that is to blame. -/
def Accounted (host : Host) (Good : CompiledMethod -> Prop) (Fine : Frame -> Nat -> Prop)
    (first : Machine) (error : RuntimeError) : Prop :=
  error.BlamesCode ->
    ∃ last, Reaches host first last ∧ last.Blamed host.catalog Good Fine error

end Machine

section

variable {host : Host} {Good : CompiledMethod -> Prop} {Fine : Frame -> Nat -> Prop}

theorem Frame.InOrder.executes (inOrder : frame.InOrder Good Fine 0)
    (upkeep : Frame.Upkeep host.catalog Good Fine) (heap : Heap) :
    ∃ instruction, frame.method.chunk.Holds frame.position instruction.bytes
      ∧ frame.method.admits host.catalog false instruction = true
      ∧ (∀ next, next ∈ instruction.successors frame.position ->
        next ∈ frame.method.chunk.boundaries 0)
      ∧ match Execute.instruction host.catalog ⟨frame, heap⟩ with
        | .ok continuation after => (Running.stance ⟨frame, heap⟩).Effect host.catalog instruction
            continuation after.stance
        | .error error after => heap.Unharmed after.heap
            ∧ (error.BlamesCode -> frame.Blamed host.catalog instruction error) := by
  rcases upkeep.decodes frame.method inOrder.code.here with ⟨instructions, decodes⟩
  rcases decodes.exists_instruction inOrder.boundary with ⟨instruction, member⟩
  have holds := decodes.holds member
  refine ⟨instruction, holds, decodes.admits_of_mem_place member,
    fun next => decodes.successors member, ?_⟩
  cases strictly : frame.method.admits host.catalog true instruction with
  | false =>
    have fails := Execute.blamed_of_not_admits heap holds inOrder.arguments
      (decodes.admits_of_mem_place member) strictly
    rcases fails with ⟨error, after, fails, unharmed, blamed⟩
    rw [fails]
    exact ⟨unharmed, fun _ => blamed⟩
  | true =>
    have leads (isJump : instruction.opcode.isJump = true) : ∃ target,
        instruction.target? frame.position = some target :=
      (decodes.jumps frame.position instruction member isJump).imp fun _ found => found.1
    have yields : Execute.Yields _ _ _ ((Running.stance ⟨frame, heap⟩).Effect host.catalog
        instruction) := Execute.yields_operation holds strictly inOrder.arguments inOrder.locals leads
    rw [Execute.instruction_of_holds holds]
    cases ran : Execute.operation host.catalog instruction.opcode ⟨frame.past 1, heap⟩ with
    | ok => exact yields.ok ran
    | error error =>
      rcases yields.error ran with ⟨unharmed, spared | short⟩
      · exact ⟨unharmed, fun blames => absurd blames spared⟩
      · exact ⟨unharmed, fun _ => .inl short⟩

/-! ## Steps -/

theorem Frame.InOrder.after {after : Frame} (inOrder : frame.InOrder Good Fine 0)
    (sameMethod : after.method = frame.method)
    (arguments : after.arguments.size = frame.arguments.size)
    (locals : after.locals.size = frame.locals.size)
    (boundary : after.position ∈ frame.method.chunk.boundaries 0) (fine : Fine after awaited) :
    after.InOrder Good Fine awaited where
  code := sameMethod ▸ inOrder.code
  arguments := by rw [arguments, sameMethod]; exact inOrder.arguments
  locals := by rw [locals, sameMethod]; exact inOrder.locals
  boundary := by rw [sameMethod]; exact boundary
  fine := fine

theorem Frame.InOrder.callee {callee : Callee} (inOrder : frame.InOrder Good Fine awaited)
    (known : (Running.stance ⟨frame, heap⟩).MayCall catalog callee) : callee.InOrder Good := by
  cases callee with
  | method =>
    rcases known with ⟨member, _⟩ | ⟨rfl, _⟩
    · exact inOrder.code.callee member
    · exact inOrder.code
  | _ => trivial

theorem Heap.Throughout.admits {before : Heap} (functions : before.Throughout Good)
    (admits : before.Admits after) : after.Throughout Good := by
  intro cell method member isBody
  rcases admits.code cell method member isBody with ⟨known, isKnown, sameBody⟩
  exact functions known method isKnown sameBody

namespace Machine

/-- The outcome of a step is in order: the machine goes on in order, or the run
ends with a failure that is excused, if with any. -/
def Keeps (Excused : RuntimeError -> Prop) (Good : CompiledMethod -> Prop)
    (Fine : Frame -> Nat -> Prop) : Progress -> Prop
  | .running next => next.InOrder Excused Good Fine
  | .ended ending => ∀ error, ending.result = .error error -> Excused error

section

variable {Excused : RuntimeError -> Prop} {waiting : List Activation} {depth : Nat} {heap : Heap}
  {counts : Bool} {step : HostStep} {error : RuntimeError}

variable (activations : ∀ activation, activation ∈ waiting ->
  activation.InOrder Excused Good Fine) (functions : heap.Throughout Good)

include activations functions

theorem keeps_refuse (excused : Excused error) :
    Keeps Excused Good Fine (refuse error waiting depth heap) :=
  ⟨fun _ same => Except.error.inj same ▸ excused, activations, functions⟩

theorem keeps_hostStep (orderly : step.Orderly Excused heap) :
    Keeps Excused Good Fine (hostStep counts waiting depth step) := by
  cases step with
  | ended => exact ⟨orderly.2, activations, functions.admits orderly.1⟩
  | calling =>
    exact ⟨trivial, List.forall_mem_cons.mpr ⟨orderly.2, activations⟩, functions.admits orderly.1⟩

theorem keeps_give (upkeep : Frame.Upkeep host.catalog Good Fine)
    {result : Except RuntimeError Value}
    (excused : ∀ error, result = .error error -> Excused error) :
    Keeps Excused Good Fine (give result waiting depth heap) := by
  cases waiting with
  | nil => exact excused
  | cons activation rest =>
    have ⟨first, others⟩ := List.forall_mem_cons.mp activations
    cases activation with
    | host => exact keeps_hostStep others functions (first result heap excused)
    | frame frame keep =>
      cases result with
      | error error => exact keeps_refuse others functions (excused error rfl)
      | ok value =>
        refine ⟨?_, others, functions⟩
        cases keep with
        | false => exact first
        | true =>
          exact ⟨first.code, first.arguments, first.locals, first.boundary,
            upkeep.give frame value first.code.here first.fine⟩

end

variable {machine : Machine} {Excused : RuntimeError -> Prop}

/-- One step of a machine in order. -/
theorem InOrder.keeps_step (inOrder : machine.InOrder Excused Good Fine)
    (orderly : host.natives.Orderly) (upkeep : Frame.Upkeep host.catalog Good Fine)
    (agrees : machine.Agrees host.catalog Fine)
    (spared : ∀ error : RuntimeError, ¬ error.BlamesCode -> Excused error)
    (blamed : ∀ error, machine.Blamed host.catalog Good Fine error -> Excused error) :
    Keeps Excused Good Fine (machine.step host) := by
  rcases machine with ⟨control, waiting, depth, heap⟩
  have activations := inOrder.waiting
  have functions := inOrder.functions
  refine step_rule ?_ ?_ (fun _ _ error excused =>
    keeps_refuse activations functions (spared error excused)) ?_ ?_
  · rintro frame rfl
    have here : frame.InOrder Good Fine 0 := inOrder.control
    rcases here.executes upkeep heap with ⟨instruction, holds, _, stops, executes⟩
    unfold Machine.instruction
    cases ran : Execute.instruction host.catalog ⟨frame, heap⟩ with rw [ran] at executes
    | error error after =>
      refine keeps_refuse activations (functions.admits executes.1.admits) ?_
      by_cases blames : error.BlamesCode
      · exact blamed error ⟨frame, instruction, rfl, here, holds, executes.2 blames⟩
      · exact spared error blames
    | ok _ after =>
      cases executes with
      | next plain goes exchange moves =>
        have same := moves.same
        refine ⟨here.after same.method same.arguments same.locals (stops _ goes)
          (upkeep.next frame after.frame instruction here.code.here here.boundary holds
            here.fine plain same.method goes exchange), activations, ?_⟩
        intro cell compiled member isBody
        rcases moves.functions member with known | ⟨lambda, loaded, rfl⟩
        · exact functions cell compiled known isBody
        · cases isBody
          exact here.code.lambda loaded
      | call still goes removal known _ keeps =>
        have sameMethod : after.frame.method = frame.method := congrArg Stance.method still
        have sameHeap : after.heap = heap := congrArg Stance.heap still
        refine ⟨here.callee known, List.forall_mem_cons.mpr ⟨?_, activations⟩, ?_⟩
        · refine here.after sameMethod (congrArg (fun stance => stance.arguments.size) still)
            (congrArg (fun stance => stance.locals.size) still) (stops _ goes) ?_
          rcases keeps with isKept | ⟨named, ref, arguments, rfl, rfl⟩
          · exact upkeep.call frame after.frame instruction _ here.code.here here.boundary
              holds here.fine sameMethod goes removal isKept
          · apply agrees frame ref arguments _ after rfl _ ran
            rw [← named]
            exact holds.1
        · exact fun cell compiled member => functions cell compiled (sameHeap ▸ member)
      | leave _ sameHeap =>
        have sameHeap : after.heap = heap := sameHeap
        exact ⟨nofun, activations, fun cell compiled member =>
          functions cell compiled (sameHeap ▸ member)⟩
  · rintro result rfl
    exact keeps_give activations functions upkeep inOrder.control
  · rintro _ _ _ _ frame after rfl enters entered
    rcases Frame.enter_ok entered with ⟨rfl, slots, locals, operands, position, kept⟩
    have code : frame.method.Throughout Good := by
      cases enters with
      | method => exact inOrder.control
      | function _ known isBody => exact functions _ _ known isBody
    rcases upkeep.decodes frame.method code.here with ⟨instructions, decodes⟩
    refine ⟨⟨code, slots, locals, ?_, upkeep.enter frame code.here operands position⟩,
      activations, ?_⟩
    · rw [position]
      exact decodes.start
    · intro cell compiled member
      exact functions cell compiled (kept ▸ member)
  · intro _ function call _ _ _
    exact keeps_hostStep activations functions
      (function.action.orderly_perform orderly spared call heap)

section

variable {first : Machine} (orderly : host.natives.Orderly)
  (upkeep : Frame.Upkeep host.catalog Good Fine)
  (agrees : ∀ reached, Reaches host first reached -> reached.Agrees host.catalog Fine)

include orderly upkeep agrees

theorem InOrder.keeps_reached
    (inOrder : machine.InOrder (Accounted host Good Fine first) Good Fine)
    (reaches : Reaches host first machine) :
    Keeps (Accounted host Good Fine first) Good Fine (machine.step host) :=
  inOrder.keeps_step orderly upkeep (agrees machine reaches)
    (fun _ spared blames => absurd blames spared) fun _ blamed _ => ⟨machine, reaches, blamed⟩

variable (inOrder : first.InOrder (Accounted host Good Fine first) Good Fine)

include inOrder

/-- Whatever a machine in order comes to is in order. -/
theorem InOrder.reached (reaches : Reaches host first machine) :
    machine.InOrder (Accounted host Good Fine first) Good Fine := by
  -- The induction is on the steps that are left, from a machine that was reached.
  suffices onward : ∀ middle, Reaches host first middle -> Reaches host middle machine ->
      middle.InOrder (Accounted host Good Fine first) Good Fine ->
        machine.InOrder (Accounted host Good Fine first) Good Fine from
    onward first (.refl first) reaches inOrder
  clear reaches
  intro middle earlier later
  induction later with
  | refl => exact id
  | step taken _ ih =>
    intro middleInOrder
    have kept := middleInOrder.keeps_reached orderly upkeep agrees earlier
    rw [taken] at kept
    exact ih (earlier.trans (.single taken)) kept

/-- A run from a machine in order can be traced to the instruction that failed:
that of the run's own code, however often the failure has been handed on since. -/
theorem InOrder.accounted (ends : Ends host first ending) (fails : ending.result = .error error) :
    Accounted host Good Fine first error := by
  obtain ⟨last, reaches, ended⟩ := ends.last
  have lastInOrder := InOrder.reached orderly upkeep agrees inOrder reaches
  have kept := lastInOrder.keeps_reached orderly upkeep agrees reaches
  rw [ended] at kept
  exact kept error fails

end

end Machine

end

/-! ## Everything that a source compiles to -/

theorem CompiledMethod.Decodes.relax (decodes : method.Decodes catalog true instructions) :
    method.Decodes catalog false instructions := by
  refine ⟨decodes.bytes, ?_, decodes.jumps, decodes.returns⟩
  intro instruction member
  have admitted := decodes.admitted instruction member
  unfold admits at admitted ⊢
  cases named : instruction.opcode <;> rw [named] at admitted
  case getArg => rfl
  case setArg => exact (Bool.and_eq_true_iff.mp admitted).2
  all_goals exact admitted

theorem Frame.Upkeep.of_decodes (decodes : ∀ method, Good method ->
      ∃ instructions, method.Decodes catalog false instructions) :
    Frame.Upkeep catalog Good fun _ _ => True where
  decodes := decodes
  enter := fun _ _ _ _ => trivial
  next := fun _ _ _ _ _ _ _ _ _ _ _ => trivial
  call := fun _ _ _ _ _ _ _ _ _ _ _ _ => trivial
  give := fun _ _ _ _ => trivial

theorem Machine.InOrder.calling {heap : Heap} {function : CompiledFunction}
    (code : function.method.Throughout Good) (functions : heap.Throughout Good)
    (arguments : List Value) :
    Machine.InOrder Excused Good Fine (.calling (heap.addFunction function.cell).1 arguments
      (heap.addFunction function.cell).2) := by
  refine ⟨trivial, fun _ member => (nomatch member), ?_⟩
  intro cell method member isBody
  rcases Array.mem_push.mp member with known | rfl
  · exact functions cell method known isBody
  · cases isBody
    exact code

/-- The code of everything that a source compiles to is well formed, and it
stays so in every later state of the catalog: it decodes into complete
instructions, jumps lead to instructions, the last one returns, and operands
stand for constants, slots, table entries and members that are there.  So no
run from a heap of such functions blames the code for anything but a stack that
is too short, if the native functions are orderly. -/
theorem Make.declaration_wellFormed {source : Source}
    (ordinals : ∀ symbol operation, source.HasBody symbol operation ->
      operation.Throughout (Operation.HasOrdinal symbol))
    {id : SyntaxId} {before after : Workspace} {function : CompiledFunction}
    (coherent : before.catalog.Coherent)
    (compiles : Make.declaration source id before = .ok function after)
    (host : Host) (grown : after.catalog.Grows host.catalog) :
    function.method.Throughout (CompiledMethod.WellFormed host.catalog)
      ∧ (host.natives.Orderly -> ∀ heap : Heap,
        heap.Throughout (CompiledMethod.WellFormed host.catalog) -> ∀ (arguments : List Value) (ending : Ending) (error : RuntimeError),
          Machine.Ends host (.calling (heap.addFunction function.cell).1 arguments
            (heap.addFunction function.cell).2) ending ->
          ending.result = .error error -> error.BlamesCode ->
            ∃ offset, error = .invalidBytecode offset "stack underflow") := by
  have wellFormed : function.method.Throughout (CompiledMethod.WellFormed host.catalog) :=
    Make.throughout_declaration (fun body isCoherent grows encodes =>
      ⟨_, encodes.decodes isCoherent grows fun _ => ordinals _ _ body⟩) coherent compiles grown
  refine ⟨wellFormed, fun orderly heap functions arguments ending error ends fails blames => ?_⟩
  have upkeep : Frame.Upkeep host.catalog (CompiledMethod.WellFormed host.catalog) _ :=
    .of_decodes fun _ ⟨instructions, decodes⟩ => ⟨instructions, decodes.relax⟩
  have accounted := Machine.InOrder.accounted orderly upkeep (fun _ _ _ _ _ _ _ _ _ _ => trivial)
    (.calling wellFormed functions arguments) ends fails
  rcases accounted blames with
    ⟨last, _, frame, instruction, _, inOrder, holds, short | ⟨notStrictly, _⟩⟩
  · exact short.2
  · -- Well formed code is admitted strictly.
    rcases inOrder.code.here with ⟨instructions, decodes⟩
    rcases decodes.exists_instruction inOrder.boundary with ⟨placed, member⟩
    cases holds.instruction_eq (decodes.holds member)
    rw [decodes.admits_of_mem_place member] at notStrictly
    cases notStrictly

/-- What holds of the one method of a source and is passed on to the anonymous
functions inside holds of every body. -/
theorem Source.HasBody.of_singleton {first : Nat} {symbol name : MethodSymbol}
    {body operation : Operation} (Property : MethodSymbol -> Operation -> Prop)
    (hasBody : (Source.ofDeclarations first [.method ⟨symbol, body⟩]).HasBody name operation)
    (declared : Property symbol body)
    (function : ∀ {symbol operation node}, Property symbol operation ->
      node ∈ operation.functions -> Property node.symbol node.body) : Property name operation := by
  have only (declaration : MethodDeclaration)
      (member : Declaration.method declaration ∈ [Declaration.method ⟨symbol, body⟩]) :
      Property declaration.symbol declaration.body := by
    cases List.mem_singleton.mp member
    exact declared
  induction hasBody with
  | declared found => exact only _ (Source.mem_of_declaration? found)
  | called found =>
    rcases Source.mem_of_foldl found with atStart | member
    · cases Std.HashMap.getElem?_empty.symm.trans atStart
    · exact only _ member
  | expression found => cases List.mem_singleton.mp (Source.mem_of_declaration? found)
  | function _ member ih => exact function ih member

namespace Spin

/-- The catalog of the types that every catalog holds. -/
@[irreducible]
def registry : Catalog := (Catalog.build []).toOption.getD {}

theorem isBuilt_registry : Catalog.build [] = .ok registry := by
  obtain ⟨catalog, isBuilt⟩ := Catalog.exists_build_nil
  rw [registry, isBuilt]
  rfl

theorem getElem?_types_proc : registry.types[proc]? = some procType := by
  have found : TypeDefinition.registered? (SystemTypes.definitions ++ []) proc
      = some (DelegateFamily.procDefinition 0) := rfl
  rw [(Catalog.holds_build isBuilt_registry).types, found]
  rfl

theorem coherent_registry : registry.Coherent :=
  Catalog.coherent_build isBuilt_registry

theorem eq_of_hasBody (hasBody : source.HasBody name operation) :
    name = symbol ∧ operation = body := by
  refine hasBody.of_singleton (fun name operation => name = symbol ∧ operation = body) ⟨rfl, rfl⟩ ?_
  rintro _ _ _ ⟨_, rfl⟩ member
  cases member

theorem declaration_registry : ∃ function,
    Make.declaration source ⟨1⟩ { catalog := registry } = .ok function ⟨registry, ⟨1, 1⟩⟩ := by
  change ∃ function, (Make.functionType symbol >>= _) { catalog := registry } = .ok function _
  rw [bind_of_ok (functionType_plain getElem?_types_proc rfl rfl {})]
  exact ⟨_, rfl⟩

theorem throughout_hasOrdinal : body.Throughout (Operation.HasOrdinal symbol) := by
  refine .intro trivial ?_
  intro child member
  rcases List.mem_cons.mp member with rfl | last
  · exact .intro trivial nofun
  · cases List.mem_singleton.mp last
    refine .intro trivial fun call isCall => ?_
    cases List.mem_singleton.mp isCall
    exact .intro trivial nofun

end Spin

theorem spin_wellFormed : ∃ function after,
    Make.declaration Spin.source ⟨1⟩ { catalog := Spin.registry } = .ok function after
      ∧ function.method.Throughout (CompiledMethod.WellFormed Spin.registry)
      ∧ ∀ (arguments : List Value) (ending : Ending) (error : RuntimeError),
          Machine.Ends { catalog := Spin.registry } (.calling
            (({} : Heap).addFunction function.cell).1 arguments
            (({} : Heap).addFunction function.cell).2) ending ->
          ending.result = .error error -> error.BlamesCode ->
            ∃ offset, error = .invalidBytecode offset "stack underflow" := by
  rcases Spin.declaration_registry with ⟨function, compiles⟩
  have ordinals (symbol : MethodSymbol) (operation : Operation)
      (hasBody : Spin.source.HasBody symbol operation) :
      operation.Throughout (Operation.HasOrdinal symbol) := by
    rcases Spin.eq_of_hasBody hasBody with ⟨rfl, rfl⟩
    exact Spin.throughout_hasOrdinal
  have safe := Make.declaration_wellFormed ordinals Spin.coherent_registry compiles
    { catalog := Spin.registry } (.refl _)
  exact ⟨function, _, compiles, safe.1,
    safe.2 Natives.orderly_silent {} fun _ _ member => absurd member (by simp)⟩

end OpMachine
