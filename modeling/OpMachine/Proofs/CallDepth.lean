import OpMachine.Proofs.Execution
import OpMachine.Proofs.HostEffects

namespace OpMachine

/-!
# The limit on nested calls

The depth of a machine is the number of calls at work that count towards the
limit, so a call that has returned or failed counts no longer, whatever native
functions do with its result.  Only a call that would go beyond the limit looks
at it.  Two runs of one function under two limits thus agree step by step, until
the one with the smaller limit is cut off.  If native functions pass failures
on, this ends the run.
-/

/-! ## Levels -/

/-- The calls that count among what a machine does next: a frame at work. -/
def Control.level : Control -> Nat
  | .instruction _ => 1
  | .call _ => 0
  | .give _ => 0

/-- Whether what waits counts towards the limit. -/
def Activation.level : Activation -> Nat
  | .frame _ _ => 1
  | .host _ counts => counts.toNat

def Activation.levels : List Activation -> Nat
  | [] => 0
  | activation :: rest => activation.level + levels rest

open Activation (levels)

namespace Machine

/-- The number of calls of a machine that count towards the limit. -/
def level (machine : Machine) : Nat := machine.control.level + levels machine.waiting

/-- The depth of what a step leads to counts the calls above some others. -/
def AtLevel (base : Nat) : Progress -> Prop
  | .running next => next.depth = base + next.level
  | .ended _ => True

section

variable {host : Host} {base depth : Nat} {waiting : List Activation} {heap : Heap}

theorem atLevel_refuse (error : RuntimeError) (isDepth : depth = base + levels waiting) :
    AtLevel base (refuse error waiting depth heap) := by
  simp only [AtLevel, refuse, level, Control.level]
  omega

theorem atLevel_hostStep (counts : Bool) (outcome : HostStep)
    (isDepth : depth = base + (counts.toNat + levels waiting)) :
    AtLevel base (hostStep counts waiting depth outcome) := by
  cases outcome with
  | calling =>
    simp only [AtLevel, hostStep, level, Control.level, levels, Activation.level]
    omega
  | ended =>
    cases counts <;> simp [AtLevel, hostStep, level, Control.level] at isDepth ⊢ <;> omega

/-- A result is handed over at the level that the call began at. -/
theorem atLevel_give (result : Except RuntimeError Value)
    (isDepth : depth = base + levels waiting) :
    AtLevel base (give result waiting depth heap) := by
  cases waiting with
  | nil => trivial
  | cons activation =>
    simp only [levels] at isDepth
    cases activation with
    | host _ counts => exact atLevel_hostStep counts _ isDepth
    | frame =>
      cases result with
      | ok => exact isDepth
      | error error =>
        refine atLevel_refuse error ?_
        simp only [Activation.level] at isDepth
        omega

theorem atLevel_instruction (frame : Frame) (isDepth : depth = base + (1 + levels waiting)) :
    AtLevel base (instruction host frame waiting depth heap) := by
  unfold instruction
  cases Execute.instruction host.catalog ⟨frame, heap⟩ with
  | error error =>
    refine atLevel_refuse error ?_
    omega
  | ok continuation =>
    cases continuation with
    | next => exact isDepth
    | call =>
      simp only [AtLevel, level, Control.level, levels, Activation.level]
      omega
    | leave =>
      simp only [AtLevel, level, Control.level]
      omega

theorem atLevel_step {machine : Machine} (isDepth : machine.depth = base + machine.level) :
    AtLevel base (machine.step host) := by
  rcases machine with ⟨control, waiting, depth, heap⟩
  have counted : depth = base + (control.level + levels waiting) := isDepth
  refine step_rule ?_ ?_ ?_ ?_ ?_
  · rintro frame rfl
    exact atLevel_instruction frame counted
  · rintro result rfl
    rw [Control.level, Nat.zero_add] at counted
    exact atLevel_give result counted
  · rintro _ rfl error _
    rw [Control.level, Nat.zero_add] at counted
    exact atLevel_refuse error counted
  · rintro _ _ _ _ _ _ rfl _ _
    simp only [AtLevel, level, Control.level] at counted ⊢
    omega
  · rintro _ _ _ counts rfl _
    refine atLevel_hostStep counts _ ?_
    rw [counted, Control.level]
    omega

theorem Reaches.depth_eq {first last : Machine} (reaches : Reaches host first last)
    (isDepth : first.depth = base + first.level) : last.depth = base + last.level := by
  induction reaches with
  | refl => exact isDepth
  | step taken _ ih =>
    have atLevel := @atLevel_step host _ _ isDepth
    rw [taken] at atLevel
    exact ih atLevel

end

/-! ## Failures that are passed on -/

end Machine

/-- A host function passes on every failure that is answered to it. -/
def HostStep.Propagates : HostStep -> Prop
  | ended _ _ => True
  | calling _ _ _ resume => ∀ heap,
      (∀ error, ∃ after, resume (.error error) heap = ended (.error error) after)
        ∧ ∀ value, (resume (.ok value) heap).Propagates

/-- Native functions that pass on the failures of the functions they call. -/
def Natives.Propagate (natives : Natives) : Prop :=
  ∀ name captured call heap, (natives name captured call heap).Propagates

/-- What waits passes failures on. -/
def Activation.Propagates : Activation -> Prop
  | .frame _ _ => True
  | .host resume _ => ∀ heap,
      (∀ error, ∃ after, resume (.error error) heap = .ended (.error error) after)
        ∧ ∀ value, (resume (.ok value) heap).Propagates

theorem HostAction.propagates_perform {natives : Natives} (propagate : natives.Propagate)
    (action : HostAction) (call : HostCall) (heap : Heap) :
    (action.perform natives call heap).Propagates := by
  rcases action.perform_of_not_native natives call heap with ⟨name, captured, rfl⟩ | ⟨result, isStep, _⟩
  · exact propagate name captured call heap
  · rw [isStep]
    cases result <;> trivial

namespace Machine

/-- All that waits in what a step leads to passes failures on. -/
def PassesOn : Progress -> Prop
  | .running next => ∀ activation, activation ∈ next.waiting -> activation.Propagates
  | .ended _ => True

section

variable {host : Host} {waiting : List Activation}

theorem passesOn_hostStep (passes : ∀ activation, activation ∈ waiting ->
    activation.Propagates) (counts : Bool) (depth : Nat) {outcome : HostStep}
    (propagates : outcome.Propagates) : PassesOn (hostStep counts waiting depth outcome) := by
  cases outcome with
  | ended => exact passes
  | calling => exact List.forall_mem_cons.mpr ⟨propagates, passes⟩

theorem passesOn_step (propagate : host.natives.Propagate) {machine : Machine}
    (passes : ∀ activation, activation ∈ machine.waiting -> activation.Propagates) :
    PassesOn (machine.step host) := by
  rcases machine with ⟨control, waiting, depth, heap⟩
  refine step_rule ?_ ?_ (fun _ _ _ _ => passes) (fun _ _ _ _ _ _ _ _ _ => passes) ?_
  · intro frame _
    unfold instruction
    cases Execute.instruction host.catalog ⟨frame, heap⟩ with
    | error => exact passes
    | ok continuation =>
      cases continuation with
      | next | leave => exact passes
      | call => exact List.forall_mem_cons.mpr ⟨trivial, passes⟩
  · intro result _
    cases waiting with
    | nil => trivial
    | cons activation rest =>
      obtain ⟨first, others⟩ := List.forall_mem_cons.mp passes
      cases activation with
      | frame => cases result <;> exact others
      | host resume counts =>
        refine passesOn_hostStep others counts depth ?_
        cases result with
        | ok value => exact (first heap).2 value
        | error error =>
          obtain ⟨after, isEnd⟩ := (first heap).1 error
          rw [isEnd]
          trivial
  · intro _ function call counts _ _
    exact passesOn_hostStep passes counts _ (HostAction.propagates_perform propagate _ _ _)

/-- A failure that is passed on by all that waits ends the run. -/
theorem ends_of_error (error : RuntimeError)
    (passes : ∀ activation, activation ∈ waiting -> activation.Propagates)
    (depth : Nat) (heap : Heap) :
    ∃ left, Ends host ⟨.give (.error error), waiting, depth, heap⟩ ⟨.error error, left⟩ := by
  induction waiting generalizing depth heap with
  | nil => exact ⟨heap, .of_step rfl⟩
  | cons activation rest ih =>
    obtain ⟨first, others⟩ := List.forall_mem_cons.mp passes
    cases activation with
    | frame =>
      obtain ⟨left, ends⟩ := ih others (depth - 1) heap
      exact ⟨left, (Reaches.single rfl).ends ends⟩
    | host resume counts =>
      obtain ⟨after, isEnd⟩ := (first heap).1 error
      obtain ⟨left, ends⟩ := ih others (if counts then depth - 1 else depth) after
      refine ⟨left, (Reaches.single ?_).ends ends⟩
      rw [step, give, isEnd, hostStep]

end

/-! ## Two limits -/

section

variable {catalog : Catalog} {natives : Natives} {limit larger : Nat} {depth : Nat}

theorem callMethod_of_lt (le : limit ≤ larger) (lt : depth < limit)
    (method : CompiledMethod) (receiver : Option Value) (arguments : List Value)
    (waiting : List Activation) (heap : Heap) :
    callMethod ⟨catalog, limit, natives⟩ method receiver arguments waiting depth heap
      = callMethod ⟨catalog, larger, natives⟩ method receiver arguments waiting depth heap := by
  unfold callMethod
  rw [if_neg (Nat.not_le_of_lt lt), if_neg (Nat.not_le_of_lt (Nat.lt_of_lt_of_le lt le))]

theorem callFunction_of_lt (le : limit ≤ larger) (lt : depth < limit)
    (ref : FunctionRef) (arguments : List Value) (waiting : List Activation) (heap : Heap) :
    callFunction ⟨catalog, limit, natives⟩ ref arguments waiting depth heap
      = callFunction ⟨catalog, larger, natives⟩ ref arguments waiting depth heap := by
  have shallow : ¬ limit ≤ depth := Nat.not_le_of_lt lt
  have shallower : ¬ larger ≤ depth := Nat.not_le_of_lt (Nat.lt_of_lt_of_le lt le)
  simp only [callFunction, callHost, callMethod_of_lt le lt, if_neg shallow, if_neg shallower]

theorem step_of_depth_lt {machine : Machine} (le : limit ≤ larger) (lt : machine.depth < limit) :
    machine.step ⟨catalog, limit, natives⟩ = machine.step ⟨catalog, larger, natives⟩ := by
  rcases machine with ⟨control, waiting, depth, heap⟩
  cases control with
  | instruction | give => rfl
  | call callee =>
    cases callee with
    | function ref arguments => exact callFunction_of_lt le lt ref arguments waiting heap
    | method method receiver arguments =>
      exact callMethod_of_lt le lt method receiver arguments waiting heap
    | host => rfl

/-- A call of a function at the limit is refused for its arguments, for its
body or for the limit, whatever a larger limit would allow. -/
theorem callFunction_of_le (deep : limit ≤ depth)
    (ref : FunctionRef) (arguments : List Value) (waiting : List Activation) (heap : Heap) :
    callFunction ⟨catalog, limit, natives⟩ ref arguments waiting depth heap
        = callFunction ⟨catalog, larger, natives⟩ ref arguments waiting depth heap
      ∨ callFunction ⟨catalog, limit, natives⟩ ref arguments waiting depth heap
        = refuse (.callDepthExceeded limit) waiting depth heap := by
  unfold callFunction
  by_cases misfits : arguments.length ≠ (heap.function ref).signature.arity
  · simp only [if_pos misfits]
    exact .inl trivial
  · simp only [if_neg misfits]
    cases (heap.function ref).body with
    | host => exact .inr (if_pos deep)
    | compiled method => exact .inr (if_pos deep)
    | foreign => exact .inl rfl

/-- Under the smaller of two limits a step is the same, or it is cut off. -/
theorem step_of_limit_le (le : limit ≤ larger) (machine : Machine) :
    machine.step ⟨catalog, limit, natives⟩ = machine.step ⟨catalog, larger, natives⟩
      ∨ machine.step ⟨catalog, limit, natives⟩
        = refuse (.callDepthExceeded limit) machine.waiting machine.depth machine.heap := by
  by_cases lt : machine.depth < limit
  · exact .inl (step_of_depth_lt le lt)
  have deep : limit ≤ machine.depth := Nat.le_of_not_lt lt
  rcases machine with ⟨control, waiting, depth, heap⟩
  cases control with
  | instruction | give => exact .inl rfl
  | call callee =>
    cases callee with
    | function ref arguments => exact callFunction_of_le deep ref arguments waiting heap
    | method method receiver arguments =>
      exact .inr (if_pos deep)
    | host => exact .inl rfl

/-- A run under the smaller of two limits is cut off or the same.  The induction
is on the steps, and failures stay passed on all the way. -/
theorem run_of_limit_le (propagate : natives.Propagate) (le : limit ≤ larger) (steps : Nat)
    (machine : Machine)
    (passes : ∀ activation, activation ∈ machine.waiting -> activation.Propagates) :
    run ⟨catalog, limit, natives⟩ steps machine = run ⟨catalog, larger, natives⟩ steps machine
      ∨ ∃ left, Ends ⟨catalog, limit, natives⟩ machine
        ⟨.error (.callDepthExceeded limit), left⟩ := by
  induction steps generalizing machine with
  | zero => exact .inl rfl
  | succ steps ih =>
    rcases step_of_limit_le le machine with same | cut
    · have passesOn := @passesOn_step ⟨catalog, larger, natives⟩ propagate machine passes
      cases taken : machine.step ⟨catalog, larger, natives⟩ with rw [taken] at same passesOn
      | ended => exact .inl ((run_ended same steps).trans (run_ended taken steps).symm)
      | running next =>
        rcases ih next passesOn with equal | ⟨left, ends⟩
        · exact .inl ((run_succ same steps).trans (equal.trans (run_succ taken steps).symm))
        · exact .inr ⟨left, (Reaches.single same).ends ends⟩
    · obtain ⟨left, ends⟩ := ends_of_error (.callDepthExceeded limit) passes machine.depth
        machine.heap
      exact .inr ⟨left, (Reaches.single cut).ends ends⟩

/-- The limit on nested calls only cuts runs off.  With native functions that
pass failures on, a call under the smaller of two limits ends by exceeding it, or
it goes on and ends as under the larger one, in result and heap.  With any native
functions, also such that go on after a failure, what counts is the number of
calls at work: calls that have returned or failed do not, and as long as those
at work are fewer than the limit, it makes no difference. -/
theorem limit_only_cuts_off (catalog : Catalog) (natives : Natives) (le : limit ≤ larger)
    (function : FunctionRef) (arguments : List Value) (heap : Heap) :
    (natives.Propagate ->
      (∃ left,
        Ends ⟨catalog, limit, natives⟩ (calling function arguments heap)
          ⟨.error (.callDepthExceeded limit), left⟩)
      ∨ ∀ steps, run ⟨catalog, limit, natives⟩ steps (calling function arguments heap)
          = run ⟨catalog, larger, natives⟩ steps (calling function arguments heap))
      ∧ ∀ machine,
        Reaches ⟨catalog, limit, natives⟩ (calling function arguments heap) machine ->
          machine.depth = machine.level
            ∧ (machine.level < limit -> machine.step ⟨catalog, limit, natives⟩
                = machine.step ⟨catalog, larger, natives⟩) := by
  refine ⟨fun propagate => ?_, ?_⟩
  · by_cases cut : ∃ left,
        Ends ⟨catalog, limit, natives⟩ (calling function arguments heap)
          ⟨.error (.callDepthExceeded limit), left⟩
    · exact .inl cut
    · refine .inr fun steps => ?_
      exact (run_of_limit_le propagate le steps (calling function arguments heap)
        fun _ member => nomatch member).resolve_right cut
  · intro machine reached
    have counted : machine.depth = 0 + machine.level := reached.depth_eq rfl
    rw [Nat.zero_add] at counted
    refine ⟨counted, ?_⟩
    intro below
    rw [← counted] at below
    exact step_of_depth_lt le below

end

/-- A method that does nothing but call itself. -/
def Endless.method : CompiledMethod where
  name := "Again"
  parameterCount := 0
  hasReceiver := false
  localCount := 0
  returnsValue := true
  chunk := (((Chunk.mk #[]).writeOpcode .callSelf 1).writeByte 0 1).writeOpcode .returnValue 1
  pool := {}
  lambdas := []
  callees := []

/-- A native function, which calls the method. -/
def Endless.natives : Natives := fun _ _ _ heap => .calling ⟨0⟩ [] heap .ended

def Endless.heap : Heap where
  functions := #[⟨.empty, ⟨[], none⟩, none, .compiled method⟩,
    ⟨.empty, ⟨[], none⟩, none, .host ⟨.empty, .native "start" []⟩⟩]

/-- A method that calls itself without end, and that a native function calls, is
cut off under both of two limits, each time at the limit. -/
theorem endless_calls_cut_off :
    Ends ⟨{}, 3, Endless.natives⟩ (calling ⟨1⟩ [] Endless.heap)
        ⟨.error (.callDepthExceeded 3), Endless.heap⟩
      ∧ ∃ left, Ends ⟨{}, 2, Endless.natives⟩ (calling ⟨1⟩ [] Endless.heap)
          ⟨.error (.callDepthExceeded 2), left⟩ := by
  have larger : run ⟨{}, 3, Endless.natives⟩ 12 (calling ⟨1⟩ [] Endless.heap)
      = some ⟨.error (.callDepthExceeded 3), Endless.heap⟩ := rfl
  have smaller : run ⟨{}, 2, Endless.natives⟩ 12 (calling ⟨1⟩ [] Endless.heap)
      = some ⟨.error (.callDepthExceeded 2), Endless.heap⟩ := rfl
  have propagate : Endless.natives.Propagate :=
    fun _ _ _ _ heap => ⟨fun _ => ⟨heap, rfl⟩, fun _ => trivial⟩
  refine ⟨⟨12, larger⟩, ?_⟩
  rcases (limit_only_cuts_off {} Endless.natives (show 2 ≤ 3 by decide) ⟨1⟩ [] Endless.heap).1
    propagate with cut | same
  · exact cut
  · rw [same 12, larger] at smaller
    cases smaller

end Machine
end OpMachine
