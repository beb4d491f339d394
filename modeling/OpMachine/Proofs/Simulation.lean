import OpMachine.Proofs.ScalarExecution

namespace OpMachine

/-!
# Code that follows an evaluation

An evaluation that has a result leads a machine to a machine that shows this
result; one that fails leads it out of the activation with the same failure and
the same heap; and one that is unfinished after a number of rounds belongs to a
machine that is unfinished after as many steps.  `Situation.Simulates` says this of a
piece of structured code, wherever it stands in a chunk.  It has a rule for
every way to put pieces together: in sequence, as a branch and as a loop, where
each round is paid for by the jump back.

Code may also use slots that no variable has.  All that is said about them here
is that they keep their values when the code does not store in them.
-/

/-! ## Evaluations seen from a machine -/

/-- An activation and what it is embedded in while it runs. -/
structure Situation where
  host : Host
  waiting : List Activation
  depth : Nat
  /-- The heap on which the activation begins. -/
  heap : Heap
  method : CompiledMethod
  /-- The slots that the body of the method was compiled with. -/
  table : SlotTable

namespace Situation

variable {α β : Type} {situation : Situation} {rounds : Nat} {machine : Machine}
  {Shows : α -> World -> Machine -> Prop} {world : World} {result : EStateM.Result Halt World α}
  {next : Machine}

/-- The machine that is about to execute an instruction of a frame. -/
def running (situation : Situation) (heap : Heap) (frame : Frame) : Machine :=
  ⟨.instruction frame, situation.waiting, situation.depth, heap⟩

/-- The machine that has left the activation with a result. -/
def giving (situation : Situation) (heap : Heap) (result : Except RuntimeError Value) : Machine :=
  ⟨.give result, situation.waiting, situation.depth - 1, heap⟩

/-- What the outcome of an evaluation means for a machine. -/
def Leads (situation : Situation) (rounds : Nat) (machine : Machine)
    (Shows : α -> World -> Machine -> Prop) : EStateM.Result Halt World α -> Prop
  | .ok value world => ∃ next, machine.Reaches situation.host next ∧ Shows value world next
  | .error (.failed error) world =>
    machine.Reaches situation.host (situation.giving world.heap (.error error))
  | .error .unfinished _ => Machine.run situation.host rounds machine = none
  | .error .outside _ => False

theorem Leads.here (shows : Shows value world machine) :
    situation.Leads rounds machine Shows (.ok value world) :=
  ⟨machine, .refl machine, shows⟩

theorem Leads.reached (reaches : machine.Reaches situation.host next)
    (leads : situation.Leads rounds next Shows result) :
    situation.Leads rounds machine Shows result := by
  cases result with
  | ok =>
    obtain ⟨last, later, shows⟩ := leads
    exact ⟨last, reaches.trans later, shows⟩
  | error halt =>
    cases halt with
    | failed => exact reaches.trans leads
    | unfinished => exact reaches.unfinished leads
    | outside => exact leads

theorem Leads.fewer {fewer : Nat} (le : fewer ≤ rounds)
    (leads : situation.Leads rounds machine Shows result) :
    situation.Leads fewer machine Shows result := by
  cases result with
  | ok => exact leads
  | error halt =>
    cases halt with
    | failed | outside => exact leads
    | unfinished => exact Machine.run_none_of_le le leads

/-- A step that is taken buys one more round. -/
theorem Leads.round (taken : machine.step situation.host = .running next)
    (leads : situation.Leads rounds next Shows result) :
    situation.Leads (rounds + 1) machine Shows result := by
  cases result with
  | ok => exact leads.reached (.single taken)
  | error halt =>
    cases halt with
    | failed => exact (Machine.Reaches.single taken).trans leads
    | unfinished => exact (Machine.run_succ taken _).trans leads
    | outside => exact leads

theorem Leads.further (leads : situation.Leads rounds machine Earlier result)
    (continues : ∀ value world middle, Earlier value world middle -> ∃ last,
      middle.Reaches situation.host last ∧ Later value world last) :
    situation.Leads rounds machine Later result := by
  cases result with
  | ok value world =>
    obtain ⟨middle, reaches, shows⟩ := leads
    obtain ⟨last, reachesFurther, showsLater⟩ := continues value world middle shows
    exact ⟨last, reaches.trans reachesFurther, showsLater⟩
  | error halt => cases halt <;> exact leads

theorem Leads.mono (leads : situation.Leads rounds machine Stronger result)
    (implies : ∀ value world next, Stronger value world next -> Weaker value world next) :
    situation.Leads rounds machine Weaker result :=
  leads.further fun value world middle shows =>
    ⟨middle, .refl middle, implies value world middle shows⟩

theorem Leads.bind {Shows : β -> World -> Machine -> Prop} {next : α -> Perform β}
    (first : situation.Leads rounds machine Middle (action world))
    (second : ∀ value world machine, Middle value world machine ->
      situation.Leads rounds machine Shows (next value world)) :
    situation.Leads rounds machine Shows ((action >>= next) world) := by
  cases outcome : action world with rw [outcome] at first
  | ok value later =>
    rw [bind_of_ok outcome]
    obtain ⟨middle, reaches, shows⟩ := first
    exact (second value later middle shows).reached reaches
  | error halt =>
    rw [bind_of_error outcome]
    cases halt <;> exact first

section

variable {frame next : Frame} {heap later : Heap}

theorem running_next (executes : Execute.instruction situation.host.catalog ⟨frame, heap⟩
      = .ok .next ⟨next, later⟩) :
    (situation.running heap frame).step situation.host
      = .running (situation.running later next) := by
  simp only [running, Machine.step, Machine.instruction, executes]

theorem running_leave (executes : Execute.instruction situation.host.catalog ⟨frame, heap⟩
      = .ok (.leave value) ⟨next, later⟩) :
    (situation.running heap frame).step situation.host
      = .running (situation.giving later (.ok value)) := by
  simp only [running, giving, Machine.step, Machine.instruction, executes]

theorem running_error (executes : Execute.instruction situation.host.catalog ⟨frame, heap⟩
      = .error error ⟨next, later⟩) :
    (situation.running heap frame).Reaches situation.host
      (situation.giving later (.error error)) := by
  refine .single ?_
  simp only [running, giving, Machine.step, Machine.instruction, executes, Machine.refuse]

end

end Situation

/-! ## Slots and stores -/

/-- The slots of an activation hold the values of a store, none of them an
object. -/
structure Store.In (store : Store) (table : SlotTable) (arguments locals : Array Value) :
    Prop where
  arguments : ∃ receiver : Array Value, receiver.size = (if table.hasReceiver then 1 else 0)
      ∧ arguments = receiver ++ store.arguments
  argumentCount : store.arguments.size = table.parameterCount
  localCount : locals.size = table.localCount
  locals : ∀ (id : SymbolId) (slot : UInt16), table.locals[id]? = some slot ->
    locals[slot.toNat]? = some (store.locals id)
  sharedArguments : ∀ value, value ∈ store.arguments -> value.isShared = true
  sharedLocals : ∀ id, (store.locals id).isShared = true

/-- Locals have slots of their own among the slots of the table. -/
structure SlotTable.Separate (table : SlotTable) : Prop where
  inside : ∀ (id : SymbolId) (slot : UInt16), table.locals[id]? = some slot ->
    slot.toNat < table.localCount
  distinct : ∀ (first second : SymbolId) (slot : UInt16), table.locals[first]? = some slot ->
    table.locals[second]? = some slot -> first = second

/-- The place where a variable is stored. -/
def Variable.StoredAt (table : SlotTable) : Variable -> StorePlace -> Prop
  | .parameter ordinal, .argument slot => ordinal < table.parameterCount
      ∧ slot.toNat = ordinal + if table.hasReceiver then 1 else 0
  | .localVariable id, .localVariable slot => table.locals[id]? = some slot
  | _, _ => False

namespace Store.In

variable {store : Store} {table : SlotTable} {arguments locals : Array Value} {ordinal : Nat}
  {slot : UInt8} {value : Value}

variable (held : store.In table arguments locals)

include held

theorem shared (stored : place.StoredAt table location) : (store.get place).isShared = true := by
  cases place with
  | localVariable id => exact held.sharedLocals id
  | parameter ordinal =>
    cases location with
    | argument =>
      have inside : ordinal < store.arguments.size := held.argumentCount.symm ▸ stored.1
      have found : store.get (.parameter ordinal) = store.arguments[ordinal] := by
        rw [get, Array.getD_eq_getD_getElem?, Array.getElem?_eq_getElem inside, Option.getD_some]
      rw [found]
      exact held.sharedArguments _ (Array.getElem_mem inside)
    | _ => exact stored.elim

theorem argument? (stored : (Variable.parameter ordinal).StoredAt table (.argument slot)) :
    arguments[slot.toNat]? = some (store.get (.parameter ordinal)) := by
  obtain ⟨_, size, rfl⟩ := held.arguments
  have inside : ordinal < store.arguments.size := held.argumentCount.symm ▸ stored.1
  rw [stored.2, ← size, Array.getElem?_append_right (Nat.le_add_left _ _), Nat.add_sub_cancel,
    get, Array.getD_eq_getD_getElem?, Array.getElem?_eq_getElem inside, Option.getD_some]

theorem setArgument (stored : (Variable.parameter ordinal).StoredAt table (.argument slot))
    (shared : value.isShared = true) :
    slot.toNat < arguments.size ∧ (store.set value (.parameter ordinal)).In table
      (arguments.setIfInBounds slot.toNat value) locals := by
  obtain ⟨receiver, size, rfl⟩ := held.arguments
  have place : slot.toNat = ordinal + receiver.size := stored.2.trans (size ▸ rfl)
  have inside : ordinal < store.arguments.size := held.argumentCount.symm ▸ stored.1
  refine ⟨?_, { held with
    arguments := ⟨receiver, size, ?_⟩, argumentCount := ?_, sharedArguments := ?_ }⟩
  · rw [Array.size_append]
    omega
  · rw [place, Array.setIfInBounds_append_right (Nat.le_add_left _ _), Nat.add_sub_cancel]
    rfl
  · exact Array.size_setIfInBounds.trans held.argumentCount
  · intro other member
    rcases Array.mem_or_eq_of_mem_setIfInBounds member with earlier | rfl
    · exact held.sharedArguments other earlier
    · exact shared

theorem setLocal (separate : table.Separate)
    {id : SymbolId} {slot : UInt16} (stored : table.locals[id]? = some slot)
    (shared : value.isShared = true) :
    slot.toNat < locals.size ∧ (store.set value (.localVariable id)).In table arguments
      (locals.setIfInBounds slot.toNat value) := by
  have inside : slot.toNat < locals.size := held.localCount.symm ▸ separate.inside id slot stored
  refine ⟨inside, { held with localCount := ?_, locals := ?_, sharedLocals := ?_ }⟩
  · exact Array.size_setIfInBounds.trans held.localCount
  · intro other place found
    change _ = some (if other = id then value else store.locals other)
    by_cases same : other = id
    · subst same
      obtain rfl : slot = place := Option.some.inj (stored.symm.trans found)
      rw [if_pos rfl, Array.getElem?_setIfInBounds, if_pos rfl, if_pos inside]
    · have different : slot.toNat ≠ place.toNat := by
        intro equal
        obtain rfl : slot = place := UInt16.toNat_inj.mp equal
        exact same (separate.distinct other id slot found stored)
      rw [if_neg same, Array.getElem?_setIfInBounds_ne different]
      exact held.locals other place found
  · intro other
    change (if other = id then value else store.locals other).isShared = true
    split
    · exact shared
    · exact held.sharedLocals other

/-- A slot that no local has may hold anything. -/
theorem setTemporary {slot : UInt16}
    (unnamed : ∀ id : SymbolId, table.locals[id]? ≠ some slot) (value : Value) :
    store.In table arguments (locals.setIfInBounds slot.toNat value) := by
  refine { held with localCount := Array.size_setIfInBounds.trans held.localCount, locals := ?_ }
  intro id place found
  have different : slot.toNat ≠ place.toNat := by
    intro equal
    obtain rfl : slot = place := UInt16.toNat_inj.mp equal
    exact unnamed id found
  rw [Array.getElem?_setIfInBounds_ne different]
  exact held.locals id place found

end Store.In

/-! ## Code that follows an evaluation -/

open Code (jumpIfFalse jumpSize length_bytes)

namespace Frame

/-- The code that comes next in a frame. -/
def At (frame : Frame) (code : MarkedCode) : Prop :=
  frame.method.chunk.Holds frame.position code.bytes

/-- A later state of a frame, behind a piece of code and with the given
operands. -/
structure Advances (frame next : Frame) (code : MarkedCode) (operands : List Value) : Prop where
  method : next.method = frame.method
  position : next.position = frame.position + code.size
  operands : next.operands = operands
  /-- Slots in which the code does not store keep their values. -/
  locals : ∀ slot, code.Avoids slot ->
    next.locals[slot.toNat]? = frame.locals[slot.toNat]?

variable {frame middle next : Frame} {operands : List Value} {whenTrue : MarkedCode}

theorem Advances.trans (earlier : frame.Advances middle first operands)
    (later : middle.Advances next second others) :
    frame.Advances next (first ++ second) others where
  method := later.method.trans earlier.method
  position := by rw [later.position, earlier.position, Code.size_append, Nat.add_assoc]
  operands := later.operands
  locals := fun slot avoids => (later.locals slot (Code.every_append.mp avoids).2).trans
    (earlier.locals slot (Code.every_append.mp avoids).1)

theorem At.first {first second : MarkedCode} (placed : frame.At (first ++ second)) :
    frame.At first := by
  rw [At, Code.bytes_append, Chunk.holds_append] at placed
  exact placed.1

theorem At.second {first second : MarkedCode} (placed : frame.At (first ++ second))
    (advances : frame.Advances next first operands) : next.At second := by
  rw [At, Code.bytes_append, Chunk.holds_append, length_bytes] at placed
  rw [At, advances.method, advances.position]
  exact placed.2

theorem At.single (placed : frame.At (.single instruction)) :
    frame.method.chunk.Holds frame.position instruction.bytes := by
  rw [At, Code.bytes_single] at placed
  exact placed

theorem At.branch (placed : frame.At (.branch whenTrue whenFalse)) :
    frame.method.chunk.Holds frame.position (jumpIfFalse (whenTrue.size + jumpSize)).bytes
      ∧ frame.method.chunk.Holds (frame.position + jumpSize) whenTrue.bytes
      ∧ frame.method.chunk.Holds (frame.position + jumpSize + whenTrue.size)
        (Code.jump whenFalse.size).bytes
      ∧ frame.method.chunk.Holds
        (frame.position + jumpSize + whenTrue.size + jumpSize) whenFalse.bytes := by
  rw [At, Code.bytes_branch, List.append_assoc, List.append_assoc, Chunk.holds_append,
    Chunk.holds_append, Chunk.holds_append, length_bytes] at placed
  exact placed

theorem At.guarded (placed : frame.At (.guarded whenTrue)) :
    frame.method.chunk.Holds frame.position (jumpIfFalse whenTrue.size).bytes
      ∧ frame.method.chunk.Holds (frame.position + jumpSize) whenTrue.bytes := by
  rw [At, Code.bytes_guarded, Chunk.holds_append] at placed
  exact placed

theorem At.loop (placed : frame.At (.loop condition body)) :
    frame.At condition ∧ frame.method.chunk.Holds (frame.position + condition.size)
        (jumpIfFalse (body.size + jumpSize)).bytes
      ∧ frame.method.chunk.Holds (frame.position + condition.size + jumpSize) body.bytes
      ∧ frame.method.chunk.Holds (frame.position + condition.size + jumpSize + body.size)
        (Code.jumpBack (condition.size + jumpSize + body.size + jumpSize)).bytes := by
  rw [At, Code.bytes_loop, List.append_assoc, List.append_assoc, Chunk.holds_append,
    Chunk.holds_append, Chunk.holds_append, length_bytes,
    length_bytes] at placed
  exact placed

end Frame

/-- Where a piece of code leaves an activation. -/
inductive Passage where
  /-- Behind the code, with some values pushed. -/
  | on (pushed : List Value)
  /-- Outside, with a result. -/
  | left (value : Value)

/-- A value that is pushed if it is kept. -/
def Passage.keeping (keeps : Bool) (value : Value) : Passage := .on (if keeps then [value] else [])

/-- Where a statement leaves an activation. -/
def Flow.passage : Flow -> Passage
  | .next => .on []
  | .leave value => .left value

namespace Situation

variable {α β : Type} {situation : Situation} {rounds : Nat} {frame : Frame}
  {part code : MarkedCode} {rest taken : List Value} {Good Stronger : α -> Prop}
  {action : Perform α} {pushed : α -> List Value} {world : World} {value : Value} {place : Variable}
  {location : StorePlace} {pool : ConstantPool} {distance : Nat} {result : α}

/-- What holds of a frame whenever an evaluation is in some world: the slots
hold the store, and no array has got an object. -/
structure Holds (situation : Situation) (world : World) (frame : Frame) : Prop where
  store : world.store.In situation.table frame.arguments frame.locals
  heap : situation.heap.SharesItems -> world.heap.SharesItems

/-- The machine after a piece of code that began in a frame. -/
def Arrives (situation : Situation) (frame : Frame) (code : MarkedCode) (rest : List Value)
    (world : World) (machine : Machine) : Passage -> Prop
  | .on pushed => ∃ next, machine = situation.running world.heap next
      ∧ frame.Advances next code (pushed ++ rest) ∧ situation.Holds world next
  | .left value => machine = situation.giving world.heap (.ok value)

variable {passage : α -> Passage}

theorem Leads.arriving {result : EStateM.Result Halt World α}
    (leads : situation.Leads rounds machine
      (fun value later machine => Good value
        ∧ situation.Arrives start part rest later machine (passage value)) result)
    (goesOn : ∀ (heap : Heap) (next : Frame) (operands : List Value),
      start.Advances next part operands -> ∃ last : Frame,
        (situation.running heap next).Reaches situation.host (situation.running heap last)
          ∧ frame.Advances last whole operands
          ∧ last.arguments = next.arguments ∧ last.locals = next.locals) :
    situation.Leads rounds machine (fun value later machine => Good value
        ∧ situation.Arrives frame whole rest later machine (passage value)) result := by
  refine leads.further ?_
  rintro value world middle ⟨good, arrives⟩
  cases way : passage value with rw [way] at arrives
  | left => exact ⟨middle, .refl middle, good, arrives⟩
  | on =>
    obtain ⟨next, rfl, advances, held⟩ := arrives
    obtain ⟨last, reaches, advancesFurther, sameArguments, sameLocals⟩ :=
      goesOn world.heap next _ advances
    refine ⟨_, reaches, good, last, rfl, advancesFurther, { held with store := ?_ }⟩
    exact sameArguments ▸ sameLocals ▸ held.store

/-- Code that takes some operands follows an evaluation: wherever it is
executed, the outcome of the evaluation is what the machine comes to. -/
def Simulates (situation : Situation) (rounds : Nat) (taken : List Value) (code : MarkedCode)
    (action : Perform α) (Good : α -> Prop) (passage : α -> Passage) : Prop :=
  ∀ (frame : Frame) (rest : List Value) (world : World), frame.method = situation.method ->
    frame.operands = taken ++ rest -> frame.At code -> situation.Holds world frame ->
      situation.Leads rounds (situation.running world.heap frame)
        (fun value later machine => Good value
          ∧ situation.Arrives frame code rest later machine (passage value))
        (action world)

theorem Simulates.mono (simulates : situation.Simulates rounds taken code action Stronger passage)
    (implies : ∀ value, Stronger value -> Weaker value ∧ passage value = other value) :
    situation.Simulates rounds taken code action Weaker other := by
  intro frame rest world isMethod operands placed held
  refine (simulates frame rest world isMethod operands placed held).mono ?_
  rintro value _ _ ⟨good, arrives⟩
  exact ⟨(implies value good).1, (implies value good).2 ▸ arrives⟩

theorem Simulates.answering
    (simulates : situation.Simulates rounds taken code action Stronger passage) (answer : α -> β)
    (implies : ∀ value, Stronger value ->
      Weaker (answer value) ∧ passage value = other (answer value)) :
    situation.Simulates rounds taken code (action >>= fun value => pure (answer value)) Weaker
      other := by
  intro frame rest world isMethod operands placed held
  refine (simulates frame rest world isMethod operands placed held).bind ?_
  rintro value _ _ ⟨good, arrives⟩
  exact .here ⟨(implies value good).1, (implies value good).2 ▸ arrives⟩

/-- Operands below those that are taken stay where they are. -/
theorem Simulates.above
    (simulates : situation.Simulates rounds taken code action Good fun value => .on (pushed value))
    (below : List Value) : situation.Simulates rounds (taken ++ below) code action Good
      fun value => .on (pushed value ++ below) := by
  intro frame rest world isMethod operands placed held
  refine (simulates frame (below ++ rest) world isMethod
    (operands.trans (List.append_assoc ..)) placed held).mono ?_
  rintro value _ _ ⟨good, next, rfl, advances, held⟩
  exact ⟨good, next, rfl, (List.append_assoc (pushed value) below rest).symm ▸ advances, held⟩

variable {first second : MarkedCode}

theorem Simulates.bind {Good : β -> Prop} {passage : β -> Passage}
    (earlier : situation.Simulates rounds taken first action Middle fun value => .on (pushed value))
    (later : ∀ value, Middle value ->
      situation.Simulates rounds (pushed value) second (next value) Good passage) :
    situation.Simulates rounds taken (first ++ second) (action >>= next) Good passage := by
  intro frame rest world isMethod operands placed held
  refine (earlier frame rest world isMethod operands placed.first held).bind ?_
  rintro value middleWorld _ ⟨good, middle, rfl, advances, middleHeld⟩
  refine (later value good middle rest middleWorld (advances.method.trans isMethod)
    advances.operands (placed.second advances) middleHeld).arriving ?_
  intro heap next operands advancesFurther
  exact ⟨next, .refl _, advances.trans advancesFurther, rfl, rfl⟩

theorem Simulates.after
    (earlier : situation.Simulates rounds taken first (pure ()) (fun _ => True) fun _ => .on middle)
    (later : situation.Simulates rounds middle second action Good passage) :
    situation.Simulates rounds taken (first ++ second) action Good passage := by
  have sequence := earlier.bind fun _ _ => later
  rwa [pure_bind] at sequence

theorem Simulates.marked (simulates : situation.Simulates rounds taken code action Good passage) :
    situation.Simulates rounds taken (.marked mark code) action Good passage := by
  intro frame rest world isMethod operands placed held
  refine (simulates frame rest world isMethod operands placed held).arriving ?_
  intro heap next others advances
  exact ⟨next, .refl _, ⟨advances.method, advances.position, advances.operands, advances.locals⟩,
    rfl, rfl⟩

/-! ## Code of single steps -/

/-- What is true of every value of an evaluation. -/
abbrev Shared (value : Value) : Prop := value.isShared = true

/-- What is true of the values of a number of operands. -/
abbrev AllShared (count : Nat) (values : List Value) : Prop :=
  values.length = count ∧ ∀ value, value ∈ values -> Shared value

theorem Simulates.nothing (pushed : α -> List Value) (value : α) (good : Good value) :
    situation.Simulates rounds (pushed value) .empty (pure value) Good
      fun value => .on (pushed value) := by
  intro frame rest world isMethod operands placed held
  exact .here ⟨good, frame, rfl, ⟨rfl, rfl, operands, fun _ _ => rfl⟩, held⟩

/-- An instruction that pushes the result of an operator, or fails as it does. -/
theorem leads_check {Good : Value -> Prop} {result : Except RuntimeError Value}
    (isSize : code.size = size)
    (executes : Execute.instruction situation.host.catalog ⟨frame, world.heap⟩ = match result with
      | .ok value => .ok .next ⟨frame.past size (value :: rest), world.heap⟩
      | .error error => .error error ⟨frame.past size rest, world.heap⟩)
    (good : ∀ value, result = .ok value -> Good value) (held : situation.Holds world frame) :
    situation.Leads rounds (situation.running world.heap frame)
      (fun value later machine => Good value
        ∧ situation.Arrives frame code rest later machine (.on [value]))
      (Perform.check result world) := by
  subst isSize
  cases result with
  | error => exact running_error executes
  | ok value =>
    refine .reached (.single (running_next executes)) (.here ⟨good value rfl, ?_⟩)
    exact ⟨_, rfl, ⟨rfl, rfl, rfl, fun _ _ => rfl⟩, { held with }⟩

theorem Simulates.push (shared : Shared value)
    (executes : ∀ (frame : Frame) (heap : Heap), frame.method = situation.method ->
      frame.At code -> Execute.instruction situation.host.catalog ⟨frame, heap⟩ = .ok .next
        ⟨frame.past code.size (value :: frame.operands), heap⟩) :
    situation.Simulates rounds [] code (pure value) Shared fun value => .on [value] := by
  intro frame rest world isMethod operands placed held
  refine .reached (.single (running_next (executes frame world.heap isMethod placed)))
    (.here ⟨shared, ?_⟩)
  exact ⟨_, rfl, ⟨rfl, rfl, congrArg (value :: ·) operands, fun _ _ => rfl⟩, { held with }⟩

theorem Simulates.load (pool : ConstantPool) (stored : place.StoredAt situation.table location)
    (loads : location.LoadCode pool code) :
    situation.Simulates rounds [] code (Perform.read place) Shared fun value => .on [value] := by
  intro frame rest world isMethod operands placed held
  have shared := held.store.shared stored
  have executes : Execute.instruction situation.host.catalog ⟨frame, world.heap⟩ = .ok .next
      ⟨frame.past code.size (world.store.get place :: frame.operands), world.heap⟩ := by
    cases place with
    | parameter =>
      cases location with
      | argument =>
        subst loads
        exact Execute.instruction_getArg placed.single (held.store.argument? stored)
      | _ => exact stored.elim
    | localVariable id =>
      cases location with
      | localVariable slot =>
        subst loads
        exact Execute.instruction_getLocal placed.single (held.store.locals id slot stored)
      | _ => exact stored.elim
  refine .reached (.single (running_next executes)) (.here ⟨shared, ?_⟩)
  exact ⟨_, rfl, ⟨rfl, rfl, congrArg (world.store.get place :: ·) operands, fun _ _ => rfl⟩,
    { held with }⟩

theorem locals_of_avoids {locals : Array Value} (avoids : (MarkedCode.setLocal slot).Avoids other) :
    (locals.setIfInBounds slot.toNat value)[other.toNat]? = locals[other.toNat]? := by
  refine Array.getElem?_setIfInBounds_ne fun same => ?_
  refine avoids _ (.head _) ?_
  rw [UInt16.toNat_inj.mp same]

theorem Simulates.store (separate : situation.table.Separate)
    (stored : place.StoredAt situation.table location) (stores : location.StoreCode pool code)
    (shared : Shared value) :
    situation.Simulates rounds [value] code (Perform.write place value) (fun _ => True)
      fun _ => .on [] := by
  intro frame rest world isMethod operands placed held
  cases place with
  | parameter =>
    cases location with
    | argument =>
      subst stores
      obtain ⟨inside, heldNext⟩ := held.store.setArgument stored shared
      refine .reached (.single (running_next
        (Execute.instruction_setArg placed.single operands shared inside))) (.here ⟨trivial, ?_⟩)
      exact ⟨_, rfl, ⟨rfl, rfl, rfl, fun _ _ => rfl⟩, heldNext, held.heap⟩
    | _ => exact stored.elim
  | localVariable =>
    cases location with
    | localVariable =>
      subst stores
      obtain ⟨inside, heldNext⟩ := held.store.setLocal separate stored shared
      refine .reached (.single (running_next
        (Execute.instruction_setLocal placed.single operands shared inside))) (.here ⟨trivial, ?_⟩)
      exact ⟨_, rfl, ⟨rfl, rfl, rfl, fun _ => locals_of_avoids⟩, heldNext, held.heap⟩
    | _ => exact stored.elim

theorem Simulates.pop {Good : Value -> Prop} (good : Good value) :
    situation.Simulates rounds [value] MarkedCode.pop (pure value) Good fun _ => .on [] := by
  intro frame rest world isMethod operands placed held
  refine .reached (.single (running_next (Execute.instruction_pop placed.single operands)))
    (.here ⟨good, ?_⟩)
  exact ⟨_, rfl, ⟨rfl, rfl, rfl, fun _ _ => rfl⟩, { held with }⟩

theorem Simulates.dup (value : Value) :
    situation.Simulates rounds [value] MarkedCode.dup (pure ()) (fun _ => True)
      fun _ => .on [value, value] := by
  intro frame rest world isMethod operands placed held
  refine .reached (.single (running_next (Execute.instruction_dup placed.single operands)))
    (.here ⟨trivial, ?_⟩)
  exact ⟨_, rfl, ⟨rfl, rfl, rfl, fun _ _ => rfl⟩, { held with }⟩

/-- A store that keeps a copy of the value when it is wanted. -/
theorem Simulates.keeping (separate : situation.table.Separate)
    {store : MarkedCode} (use : ValueUse)
    (stored : place.StoredAt situation.table location) (stores : location.StoreCode pool store)
    (shared : Shared value) : situation.Simulates rounds [value] (MarkedCode.keeping use store) (do
        Perform.write place value
        return value) Shared (Passage.keeping (use = .kept)) := by
  have storing : situation.Simulates rounds [value] store _ (fun _ => True) fun _ => .on [] :=
    .store separate stored stores shared
  cases use with
  | discarded => exact storing.answering (fun _ => value) fun _ _ => ⟨shared, rfl⟩
  | kept =>
    refine (dup value).after ?_
    exact (storing.above [value]).answering (fun _ => value) fun _ _ => ⟨shared, rfl⟩

/-! ## Jumps -/

private theorem toNat_word (fits : distance < 65536) :
    distance.toUInt16.toNat = distance := Nat.mod_eq_of_lt fits

/-- A conditional jump with the truth value that it tests. -/
theorem leads_test (fits : distance < 65536) (operands : frame.operands = value :: rest)
    (holds : frame.method.chunk.Holds frame.position (jumpIfFalse distance).bytes)
    (whenTrue : situation.Leads rounds (situation.running world.heap (frame.past jumpSize rest))
      Shows (next true world)) (whenFalse : situation.Leads rounds (situation.running world.heap
        { frame with operands := rest, position := frame.position + jumpSize + distance })
      Shows (next false world)) :
    situation.Leads rounds (situation.running world.heap frame) Shows
      ((Perform.truth value >>= next) world) := by
  have executes : Execute.instruction situation.host.catalog ⟨frame, world.heap⟩ = _ :=
    Execute.instruction_jumpIfFalse holds operands
  rw [toNat_word fits] at executes
  cases outcome : Conversion.readBool value with
  | error error =>
    have fails : Perform.truth value world = .error (.failed (.conversion error)) world := by
      rw [Perform.truth, Evaluate.truth, outcome]
      rfl
    rw [outcome] at executes
    rw [bind_of_error fails]
    exact running_error executes
  | ok truth =>
    have tests : Perform.truth value world = .ok truth world := by
      rw [Perform.truth, Evaluate.truth, outcome]
      rfl
    rw [outcome] at executes
    rw [bind_of_ok tests]
    cases truth with
    | true => exact .reached (.single (running_next executes)) whenTrue
    | false => exact .reached (.single (running_next executes)) whenFalse

theorem Simulates.branch {value : Value} {Good : α -> Prop}
    (fits : (Code.branch first second : MarkedCode).Fits)
    (onTrue : situation.Simulates rounds [] first whenTrue Good passage)
    (onFalse : situation.Simulates rounds [] second whenFalse Good passage) :
    situation.Simulates rounds [value] (.branch first second)
      (Perform.truth value >>= fun truth => if truth then whenTrue else whenFalse) Good
      passage := by
  intro frame rest world isMethod operands placed held
  obtain ⟨test, firstPlaced, jump, secondPlaced⟩ := placed.branch
  refine leads_test fits.1 operands test ?_ ?_
  · refine (onTrue (frame.past jumpSize rest) rest world isMethod rfl firstPlaced
      { held with }).arriving ?_
    intro heap next others advances
    -- Behind the first branch the jump leads over the second one.
    have jumped : Execute.instruction situation.host.catalog ⟨next, heap⟩ = _ :=
      Execute.instruction_jump (by rw [Frame.Faces, advances.method, advances.position]; exact jump)
    rw [toNat_word fits.2.1] at jumped
    refine ⟨_, .single (running_next jumped), ⟨advances.method, ?_, advances.operands, ?_⟩, rfl, rfl⟩
    · simp only [advances.position, Code.size, jumpSize]
      omega
    · exact fun slot avoids => advances.locals slot (Code.Every.ofBranch avoids).1
  · refine (onFalse { frame with operands := rest, position := _ } rest world isMethod rfl
      secondPlaced { held with }).arriving ?_
    intro heap next others advances
    refine ⟨next, .refl _, ⟨advances.method, ?_, advances.operands, ?_⟩, rfl, rfl⟩
    · simp only [advances.position, Code.size, jumpSize]
      omega
    · exact fun slot avoids => advances.locals slot (Code.Every.ofBranch avoids).2

theorem Simulates.guarded {Good : Flow -> Prop} (fits : (Code.guarded part : MarkedCode).Fits)
    (idle : Good .next) (onTrue : situation.Simulates rounds [] part whenTrue Good Flow.passage) :
    situation.Simulates rounds [value] (.guarded part)
      (Perform.truth value >>= fun truth => if truth then whenTrue else pure .next) Good
      Flow.passage := by
  intro frame rest world isMethod operands placed held
  obtain ⟨test, partPlaced⟩ := placed.guarded
  refine leads_test fits.1 operands test ?_ ?_
  · refine (onTrue (frame.past jumpSize rest) rest world isMethod rfl partPlaced
      { held with }).arriving ?_
    intro heap next others advances
    refine ⟨next, .refl _, ⟨advances.method, ?_, advances.operands, ?_⟩, rfl, rfl⟩
    · rw [advances.position]
      exact Nat.add_assoc ..
    · exact fun slot avoids => advances.locals slot (Code.Every.ofGuarded avoids)
  · exact .here ⟨idle, _, rfl, ⟨rfl, Nat.add_assoc .., rfl, fun _ _ => rfl⟩, { held with }⟩

/-- A loop follows the rounds of an evaluation. -/
theorem Simulates.loop {Good : Flow -> Prop} (fits : (Code.loop first second : MarkedCode).Fits)
    (idle : Good .next)
    (onCondition : situation.Simulates rounds [] first condition Tested fun value => .on [value])
    (onBody : situation.Simulates rounds [] second body Good Flow.passage) :
    situation.Simulates rounds [] (.loop first second)
      (Perform.loop (condition >>= Perform.truth) body rounds) Good Flow.passage := by
  intro frame rest world isMethod operands placed held
  suffices each : ∀ fewer, fewer ≤ rounds -> ∀ (frame : Frame) (world : World),
      frame.method = situation.method -> frame.operands = [] ++ rest ->
        frame.At (.loop first second) -> situation.Holds world frame ->
          situation.Leads fewer (situation.running world.heap frame)
            (fun value later machine => Good value
              ∧ situation.Arrives frame (.loop first second) rest later machine value.passage)
            (Perform.loop (condition >>= Perform.truth) body fewer world) from
    each rounds .refl frame world isMethod operands placed held
  intro fewer
  induction fewer with
  | zero => exact fun _ _ _ _ _ _ _ => rfl
  | succ fewer ih =>
    intro le frame world isMethod operands placed held
    obtain ⟨conditionPlaced, test, bodyPlaced, back⟩ := placed.loop
    have unfolded : Perform.loop (condition >>= Perform.truth) body (fewer + 1) world =
        (condition >>= fun value => Perform.truth value >>= fun truth =>
          if truth then do
            match ← body with
            | .next => Perform.loop (condition >>= Perform.truth) body fewer
            | .leave value => return .leave value
          else return .next) world := by
      exact congrFun (bind_assoc _ _ _) world
    rw [unfolded]
    refine ((onCondition frame rest world isMethod operands conditionPlaced held).fewer le).bind ?_
    rintro _ testedWorld _ ⟨_, tested, rfl, advances, testedHeld⟩
    have testedMethod := advances.method.trans isMethod
    have short : second.size + jumpSize < 65536 := by
      have whole := fits.1
      omega
    refine leads_test short advances.operands
      (by rw [advances.method, advances.position]; exact test) ?_ ?_
    · refine ((onBody { tested with operands := rest, position := tested.position + jumpSize }
        rest testedWorld testedMethod rfl ?_ { testedHeld with }).fewer le).bind ?_
      · rw [advances.method, advances.position]
        exact bodyPlaced
      rintro flow laterWorld _ ⟨good, arrives⟩
      cases flow with
      | leave => exact .here ⟨good, arrives⟩
      | next =>
        obtain ⟨last, rfl, further, lastHeld⟩ := arrives
        have lastPosition : last.position
            = frame.position + first.size + jumpSize + second.size := by
          rw [further.position]
          rw [advances.position]
        have lastMethod : last.method = frame.method := further.method.trans advances.method
        have jumped : Execute.instruction situation.host.catalog ⟨last, laterWorld.heap⟩ = _ :=
          Execute.instruction_loop (by rw [Frame.Faces, lastMethod, lastPosition]; exact back)
            (by rw [toNat_word fits.1, lastPosition]; simp only [jumpSize]; omega)
        have start : last.position + 3 - (first.size + jumpSize + second.size
            + jumpSize).toUInt16.toNat = frame.position := by
          rw [toNat_word fits.1, lastPosition]
          simp only [jumpSize]
          omega
        rw [start] at jumped
        -- The jump back is the step that pays for the round.
        refine .round (running_next jumped) ?_
        refine (ih (Nat.le_of_succ_le le) { last with position := frame.position }
          laterWorld (lastMethod.trans isMethod) further.operands ?_ { lastHeld with }).arriving ?_
        · rw [lastMethod]
          exact placed
        · intro heap next others again
          refine ⟨next, .refl _, ⟨again.method.trans lastMethod, again.position, again.operands,
            fun slot avoids => ?_⟩, rfl, rfl⟩
          have parts := Code.Every.ofLoop avoids
          exact ((again.locals slot avoids).trans (further.locals slot parts.2)).trans
            (advances.locals slot parts.1)
    · refine .here ⟨idle, _, rfl, ⟨advances.method, ?_, rfl, ?_⟩, { testedHeld with }⟩
      · simp only [advances.position, Code.size, jumpSize]
        omega
      · exact fun slot avoids => advances.locals slot (Code.Every.ofLoop avoids).1

/-! ## Statements -/

/-- Statements in sequence: what follows is executed unless the method has been
left. -/
theorem Simulates.sequence {action : Perform Flow} {Good : β -> Prop} {passage : β -> Passage}
    (earlier : situation.Simulates rounds [] first action Middle Flow.passage)
    (later : situation.Simulates rounds [] second (next .next) Good passage)
    (leaving : ∀ value, Middle (.leave value) -> ∃ result,
      next (.leave value) = pure result ∧ Good result ∧ passage result = .left value) :
    situation.Simulates rounds [] (first ++ second) (action >>= next) Good passage := by
  intro frame rest world isMethod operands placed held
  refine (earlier frame rest world isMethod operands placed.first held).bind ?_
  rintro flow middleWorld _ ⟨good, arrives⟩
  cases flow with
  | leave value =>
    obtain ⟨_, same, goodResult, isLeft⟩ := leaving value good
    rw [same]
    exact .here ⟨goodResult, isLeft ▸ arrives⟩
  | next =>
    obtain ⟨middle, rfl, advances, middleHeld⟩ := arrives
    refine (later middle rest middleWorld (advances.method.trans isMethod) advances.operands
      (placed.second advances) middleHeld).arriving ?_
    intro heap next operands advancesFurther
    exact ⟨next, .refl _, advances.trans advancesFurther, rfl, rfl⟩

theorem Simulates.returnValue (good : Good result) (isLeft : passage result = .left value) :
    situation.Simulates rounds [value] (MarkedCode.plain .returnValue rfl) (pure result) Good
      passage := by
  intro frame rest world isMethod operands placed held
  refine .reached (.single (running_leave (Execute.instruction_returnValue placed.single operands)))
    (.here ⟨good, ?_⟩)
  rw [isLeft]
  rfl

theorem Simulates.returnVoid (good : Good result) (isLeft : passage result = .left .void) :
    situation.Simulates rounds [] (MarkedCode.plain .returnVoid rfl) (pure result) Good
      passage := by
  intro frame rest world isMethod operands placed held
  refine .reached (.single (running_leave (Execute.instruction_returnVoid placed.single)))
    (.here ⟨good, ?_⟩)
  rw [isLeft]
  rfl

end Situation
end OpMachine
