import OpMachine.Machine.Run
import OpMachine.Proofs.StructuredCode

namespace OpMachine

/-!
# Runs of the machine

A machine is deterministic: a run that has ended ends in the same way however
many more steps are allowed, and a machine that is reached on the way ends
where the first one does.  An instruction that a chunk holds at the position of
a frame is the one that is executed there, and its operands are read back.
-/

variable {ε σ α β : Type} {action : EStateM ε σ α} {next : α -> EStateM ε σ β} {before after : σ}

theorem EStateM.bind_of_ok (runs : action before = .ok answer after) :
    (action >>= next) before = next answer after := by
  simp only [bind, EStateM.bind, runs]

theorem EStateM.bind_of_error (fails : action before = .error error after) :
    (action >>= next) before = .error error after := by
  simp only [bind, EStateM.bind, fails]

export EStateM (bind_of_ok bind_of_error)

namespace Machine

variable {host : Host} {machine first second : Machine} {ending : Ending} {fewer more : Nat}

/-- Some steps lead from one machine to another. -/
inductive Reaches (host : Host) : Machine -> Machine -> Prop
  | refl (machine : Machine) : Reaches host machine machine
  | step {first second third : Machine} (taken : first.step host = .running second)
      (later : Reaches host second third) : Reaches host first third

def Ends (host : Host) (machine : Machine) (ending : Ending) : Prop :=
  ∃ steps, run host steps machine = some ending

theorem run_succ {next : Machine} (taken : machine.step host = .running next)
    (steps : Nat) : run host (steps + 1) machine = run host steps next := by
  rw [run, taken]

theorem run_ended (ended : machine.step host = .ended ending)
    (steps : Nat) : run host (steps + 1) machine = some ending := by
  rw [run, ended]

theorem run_mono (le : fewer ≤ more)
    (ended : run host fewer machine = some ending) : run host more machine = some ending := by
  induction fewer generalizing machine more with
  | zero => cases ended
  | succ _ ih =>
    cases more with
    | zero => exact absurd le (Nat.not_succ_le_zero _)
    | succ =>
      cases taken : machine.step host with
      | running =>
        rw [run_succ taken] at ended ⊢
        exact ih (Nat.le_of_succ_le_succ le) ended
      | ended =>
        rw [run_ended taken] at ended ⊢
        exact ended

theorem run_none_of_le (le : fewer ≤ more)
    (unfinished : run host more machine = none) : run host fewer machine = none := by
  cases finished : run host fewer machine with
  | none => rfl
  | some => rw [run_mono le finished] at unfinished; cases unfinished

theorem Ends.unique {first second : Ending} (one : Ends host machine first)
    (other : Ends host machine second) : first = second := by
  obtain ⟨fewer, oneEnds⟩ := one
  obtain ⟨more, otherEnds⟩ := other
  have atMost := run_mono (Nat.le_add_right fewer more) oneEnds
  rw [run_mono (Nat.le_add_left more fewer) otherEnds] at atMost
  exact (Option.some.inj atMost).symm

theorem Ends.of_step (ended : machine.step host = .ended ending) : Ends host machine ending :=
  ⟨1, run_ended ended 0⟩

theorem Reaches.trans (earlier : Reaches host first second) (later : Reaches host second third) :
    Reaches host first third := by
  induction earlier with
  | refl => exact later
  | step taken _ ih => exact .step taken (ih later)

theorem Reaches.single (taken : first.step host = .running second) :
    Reaches host first second := .step taken (.refl second)

theorem Reaches.ends {first second : Machine} {ending : Ending}
    (reaches : Reaches host first second) (ends : Ends host second ending) :
    Ends host first ending := by
  induction reaches with
  | refl => exact ends
  | step taken _ ih =>
    obtain ⟨steps, ended⟩ := ih ends
    exact ⟨steps + 1, (run_succ taken steps).trans ended⟩

theorem Ends.last (ends : Ends host first ending) :
    ∃ last, Reaches host first last ∧ last.step host = .ended ending := by
  obtain ⟨steps, ran⟩ := ends
  induction steps generalizing first with
  | zero => cases ran
  | succ _ ih =>
    cases taken : first.step host with
    | running =>
      rw [run_succ taken] at ran
      obtain ⟨last, reaches, ended⟩ := ih ran
      exact ⟨last, .step taken reaches, ended⟩
    | ended =>
      rw [run_ended taken] at ran
      cases ran
      exact ⟨first, .refl first, taken⟩

theorem Reaches.unfinished {first second : Machine} (reaches : Reaches host first second)
    (unfinished : run host steps second = none) : run host steps first = none := by
  induction reaches with
  | refl => exact unfinished
  | step taken _ ih =>
    exact run_none_of_le (Nat.le_succ steps) ((run_succ taken _).trans (ih unfinished))

/-- A machine that works above what waits, whatever that is. -/
def WorksAbove (outcome : List Activation -> Progress) : Prop :=
  ∃ next : Machine, ∀ waiting,
    outcome waiting = .running { next with waiting := next.waiting ++ waiting }

section

variable (depth : Nat) (heap : Heap)

theorem worksAbove_refuse (error : RuntimeError) : WorksAbove (refuse error · depth heap) :=
  ⟨⟨_, [], _, _⟩, fun _ => rfl⟩

theorem worksAbove_callHost (function : HostFunction) (call : HostCall) (counts : Bool) :
    WorksAbove (callHost host function call counts · depth heap) := by
  unfold callHost
  cases function.action.perform host.natives call heap with
  | ended => exact ⟨⟨_, [], _, _⟩, fun _ => rfl⟩
  | calling => exact ⟨⟨_, [_], _, _⟩, fun _ => rfl⟩

theorem worksAbove_callMethod (method : CompiledMethod) (receiver : Option Value)
    (arguments : List Value) :
    WorksAbove (callMethod host method receiver arguments · depth heap) := by
  unfold callMethod
  split
  · exact worksAbove_refuse depth heap _
  · cases Frame.enter method receiver arguments heap with
    | error error => exact worksAbove_refuse depth heap error
    | ok => exact ⟨⟨_, [], _, _⟩, fun _ => rfl⟩

/-- A step that hands nothing over does not look at what waits. -/
theorem worksAbove_step {control : Control} (busy : ∀ result, control ≠ .give result) :
    WorksAbove (step host ⟨control, ·, depth, heap⟩) := by
  cases control with
  | give result => exact absurd rfl (busy result)
  | instruction frame =>
    simp only [step, instruction]
    cases Execute.instruction host.catalog ⟨frame, heap⟩ with
    | error error after => exact worksAbove_refuse (depth - 1) after.heap error
    | ok continuation =>
      cases continuation with
      | next | leave => exact ⟨⟨_, [], _, _⟩, fun _ => rfl⟩
      | call => exact ⟨⟨_, [_], _, _⟩, fun _ => rfl⟩
  | call callee =>
    cases callee with
    | host function call => exact worksAbove_callHost depth heap function call false
    | method method receiver arguments =>
      exact worksAbove_callMethod depth heap method receiver arguments
    | function ref arguments =>
      simp only [step, callFunction]
      split
      · exact worksAbove_refuse depth heap _
      · cases (heap.function ref).body with
        | compiled method => exact worksAbove_callMethod depth heap method _ arguments
        | foreign => exact worksAbove_refuse depth heap _
        | host native =>
          simp only
          split
          · exact worksAbove_refuse depth heap _
          · exact worksAbove_callHost (depth + 1) heap native _ true

end

end Machine

/-! ## Instructions -/

/-- A frame is about to execute an instruction. -/
abbrev Frame.Faces (frame : Frame) (instruction : Instruction) : Prop :=
  frame.method.chunk.Holds frame.position instruction.bytes

/-- A frame behind an instruction. -/
abbrev Frame.past (frame : Frame) (width : Nat) (operands : List Value := frame.operands) : Frame :=
  { frame with operands, position := frame.position + width }

namespace Execute

variable {α β : Type} {catalog : Catalog} {heap : Heap} {frame : Frame} {word : UInt16}

theorem frame_bind (next : Frame -> Execute α) (running : Running) :
    (Execute.frame >>= next) running = next running.frame running := rfl

theorem readByte_of_holds (holds : frame.method.chunk.Holds frame.position (byte :: rest)) :
    readByte ⟨frame, heap⟩ = .ok byte ⟨frame.past 1, heap⟩ := by
  rw [readByte, frame_bind, holds.1]
  rfl

theorem readWord_run (found : frame.method.chunk.word? frame.position = some word) :
    readWord ⟨frame, heap⟩ = .ok word ⟨frame.past 2, heap⟩ := by
  rw [readWord, frame_bind, found]
  rfl

theorem readWord_of_holds
    (holds : frame.method.chunk.Holds frame.position (Instruction.wordBytes word)) :
    readWord ⟨frame, heap⟩ = .ok word ⟨frame.past 2, heap⟩ :=
  readWord_run (Chunk.word?_of_holds holds)

/-- The instruction at the position of a frame is executed from its first
operand on. -/
theorem instruction_of_holds {instruction : Instruction} (holds : frame.Faces instruction) :
    Execute.instruction catalog ⟨frame, heap⟩ = operation catalog instruction.opcode
        ⟨frame.past 1, heap⟩ := by
  have byte : readByte ⟨frame, heap⟩ = _ := readByte_of_holds holds
  have read : readOpcode ⟨frame, heap⟩ = .ok instruction.opcode ⟨frame.past 1, heap⟩ := by
    simp only [readOpcode, bind, EStateM.bind, byte, Opcode.ofByte?_toByte]
    rfl
  simp only [Execute.instruction, bind, EStateM.bind, read]

end Execute
end OpMachine
