import OpMachine.Machine.Instruction

namespace OpMachine

/-!
Runs of the machine.

A machine has one thing to do next, a stack of activations that wait for a
result, and a heap.  Each step does that one thing.  A failure is a result as
well: frames that wait for it are left, and a host function may go on with it.
Calls of compiled methods and of functions count towards a limit on the
nesting; calls of host methods do not, but the functions they call back do.
-/

/-- Something that waits for the result of a call. -/
inductive Activation where
  | frame (frame : Frame) (keep : Bool)
  /-- A host function, which may count towards the limit. -/
  | host (resume : Except RuntimeError Value -> Heap -> HostStep) (counts : Bool)

/-- What a machine does next. -/
inductive Control where
  | instruction (frame : Frame)
  | call (callee : Callee)
  /-- Hands a result to what waits for it. -/
  | give (result : Except RuntimeError Value)

/-- A state of a run. -/
structure Machine where
  control : Control
  waiting : List Activation := []
  /-- The number of calls that count towards the limit. -/
  depth : Nat := 0
  heap : Heap

/-- How a run ends, with the heap it leaves. -/
structure Ending where
  result : Except RuntimeError Value
  heap : Heap

/-- What a step leads to. -/
inductive Progress where
  | running (machine : Machine)
  | ended (ending : Ending)

/-- What a run relies on. -/
structure Host where
  catalog : Catalog
  maximumDepth : Nat := 256
  natives : Natives := .silent

namespace Machine

/-- A call that is refused. -/
def refuse (error : RuntimeError) (waiting : List Activation) (depth : Nat) (heap : Heap) :
    Progress :=
  .running { control := .give (.error error), waiting, depth, heap }

/-- A host function that has ended, or that wants something called. -/
def hostStep (counts : Bool) (waiting : List Activation) (depth : Nat) : HostStep -> Progress
  | .ended result heap =>
      .running
        { control := .give result, waiting, depth := if counts then depth - 1 else depth, heap }
  | .calling function arguments heap resume =>
      .running
        { control := .call (.function function arguments)
          waiting := .host resume counts :: waiting
          depth
          heap }

variable (host : Host)

/-- A host function called. -/
def callHost (function : HostFunction) (call : HostCall) (counts : Bool)
    (waiting : List Activation) (depth : Nat) (heap : Heap) : Progress :=
  hostStep counts waiting depth (function.action.perform host.natives call heap)

/-- A compiled method entered, unless the limit is reached. -/
def callMethod (method : CompiledMethod) (receiver : Option Value)
    (arguments : List Value) (waiting : List Activation) (depth : Nat) (heap : Heap) :
    Progress :=
  if host.maximumDepth ≤ depth then
    refuse (.callDepthExceeded host.maximumDepth) waiting depth heap
  else
    match Frame.enter method receiver arguments heap with
    | .ok (frame, heap) =>
        .running { control := .instruction frame, waiting, depth := depth + 1, heap }
    | .error error => refuse error waiting depth heap

/-- A function called with as many arguments as its signature says. -/
def callFunction (ref : FunctionRef) (arguments : List Value)
    (waiting : List Activation) (depth : Nat) (heap : Heap) : Progress :=
  let function := heap.function ref
  let arity := function.signature.arity
  if arguments.length ≠ arity then
    refuse (.typeMismatch (toString arity ++ " argument(s)") (toString arguments.length)) waiting
      depth heap
  else
    match function.body with
    | .host native =>
        if host.maximumDepth ≤ depth then
          refuse (.callDepthExceeded host.maximumDepth) waiting depth heap
        else
          callHost host native { receiver := function.target, arguments } true waiting (depth + 1)
            heap
    | .compiled method => callMethod host method function.target arguments waiting depth heap
    | .foreign name => refuse (.typeMismatch "bytecode method" name) waiting depth heap

/-- A result handed to what waits for it.  A frame that gets a failure is left
with the same failure. -/
def give (result : Except RuntimeError Value) (waiting : List Activation) (depth : Nat)
    (heap : Heap) : Progress :=
  match waiting with
  | [] => .ended ⟨result, heap⟩
  | .frame frame keep :: rest =>
      match result with
      | .ok value =>
          let frame := if keep then { frame with operands := value :: frame.operands } else frame
          .running { control := .instruction frame, waiting := rest, depth, heap }
      | .error error => refuse error rest (depth - 1) heap
  | .host resume counts :: rest => hostStep counts rest depth (resume result heap)

/-- The next instruction of a frame.  A frame that fails is left. -/
def instruction (frame : Frame) (waiting : List Activation) (depth : Nat)
    (heap : Heap) : Progress :=
  match Execute.instruction host.catalog ⟨frame, heap⟩ with
  | .error error running => refuse error waiting (depth - 1) running.heap
  | .ok .next running =>
      .running { control := .instruction running.frame, waiting, depth, heap := running.heap }
  | .ok (.call callee keep) running =>
      .running
        { control := .call callee
          waiting := .frame running.frame keep :: waiting
          depth
          heap := running.heap }
  | .ok (.leave value) running =>
      .running
        { control := .give (.ok value), waiting, depth := depth - 1, heap := running.heap }

/-- One thing done. -/
def step : Machine -> Progress
  | ⟨.instruction frame, waiting, depth, heap⟩ => instruction host frame waiting depth heap
  | ⟨.call (.function ref arguments), waiting, depth, heap⟩ =>
      callFunction host ref arguments waiting depth heap
  | ⟨.call (.method method receiver arguments), waiting, depth, heap⟩ =>
      callMethod host method receiver arguments waiting depth heap
  | ⟨.call (.host function call), waiting, depth, heap⟩ =>
      callHost host function call false waiting depth heap
  | ⟨.give result, waiting, depth, heap⟩ => give result waiting depth heap

/-- A run of at most a number of steps. -/
def run (host : Host) : Nat -> Machine -> Option Ending
  | 0, _ => none
  | steps + 1, machine =>
      match machine.step host with
      | .running machine => run host steps machine
      | .ended ending => some ending

/-- A machine that is about to call a function. -/
def calling (function : FunctionRef) (arguments : List Value) (heap : Heap) : Machine :=
  { control := .call (.function function arguments), heap }

end Machine
end OpMachine
