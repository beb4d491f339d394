import OpMachine.Proofs.Emission
import OpMachine.Proofs.HostEffects

namespace OpMachine

/-!
# How far instructions reach

An instruction reads the argument slots of its frame only if it names one of
them, or if it calls the running method on the same receiver.  All others do the
same whatever the arguments are.  Likewise the functions on the heap, and the
record of those that anonymous functions have become, are left alone by every
instruction but the one that loads such a function, also when it fails.  And no
compiled methods are called but the running one and those in its table.  None of
this depends on the code being well formed.
-/

/-- Two heaps have the same functions and know the same ones of anonymous
functions. -/
structure Heap.Shares (one other : Heap) : Prop where
  functions : other.functions = one.functions
  delegates : other.delegates = one.delegates

namespace Heap.Shares

theorem refl (heap : Heap) : heap.Shares heap := ⟨rfl, rfl⟩

theorem trans {first second third : Heap} (earlier : first.Shares second)
    (later : second.Shares third) : first.Shares third :=
  ⟨later.functions.trans earlier.functions, later.delegates.trans earlier.delegates⟩

variable {after home heap : Heap}

theorem of_change {before : Heap} (change : before.Change given after made) : before.Shares after :=
  ⟨change.functions, change.delegates⟩

theorem copied (shares : home.Shares heap) (value : Value) : home.Shares (heap.copied value).2 :=
  shares.trans (.of_change (heap.change_copied value))

end Heap.Shares

theorem Spares.of_ok {α : Type} {result : Except RuntimeError α} {Good : α -> Prop} {value : α}
    (spares : Spares result Good) (isOk : result = .ok value) : Good value := by
  rw [isOk] at spares
  exact spares

/-- A running frame with other arguments. -/
def Running.withArguments (running : Running) (arguments : Array Value) : Running :=
  ⟨{ running.frame with arguments }, running.heap⟩

/-- Whether an instruction has nothing to do with arguments and compiled methods. -/
def Opcode.isAloof : Opcode -> Bool
  | .getArg | .setArg | .callSelf | .loadDelegate | .callUnit => false
  | _ => true

/-- A continuation that calls no compiled method. -/
def Continuation.Calm : Continuation -> Prop
  | .call (.method _ _ _) _ => False
  | _ => True

namespace Execute

open Continuation (Calm)

variable {α β : Type} {action : Execute α}

def left (action : Execute α) (running : Running) : Running :=
  match action running with
  | .ok _ after => after
  | .error _ after => after

/-- What a part of an instruction comes to, with other arguments. -/
def under (arguments : Array Value) (action : Execute α) (running : Running) :
    EStateM.Result RuntimeError Running α :=
  match action running with
  | .ok value after => .ok value (after.withArguments arguments)
  | .error error after => .error error (after.withArguments arguments)

/-- A part of an instruction does not depend on the arguments, leaves the
functions as they are at home, stays in its method and has a good result. -/
structure AloofFrom (running : Running) (home : Heap) (Good : α -> Prop) (action : Execute α) :
    Prop where
  blind : ∀ arguments, action (running.withArguments arguments)
    = under arguments action running
  shares : home.Shares (left action running).heap
  method : (left action running).frame.method = running.frame.method
  good : ∀ value after, action running = .ok value after -> Good value

def Aloof (home : Heap) (Good : α -> Prop) (action : Execute α) : Prop :=
  ∀ running : Running, home.Shares running.heap -> AloofFrom running home Good action

/-- Any result is good. -/
def Any (_ : α) : Prop := True

section

variable {home : Heap} {Good : α -> Prop} {Best : β -> Prop} {action : Execute α}
  {next : α -> Execute β}

theorem Aloof.bind (first : Aloof home Good action)
    (rest : ∀ value, Aloof home Best (next value)) : Aloof home Best (action >>= next) := by
  intro running shares
  have ⟨blind, keeps, method, _⟩ := first running shares
  unfold under at blind
  unfold left at keeps method
  cases ran : action running with simp only [ran] at blind keeps method
  | error _ after =>
    have whole : (action >>= next) running = _ := bind_of_error ran
    constructor
    · intro arguments
      rw [under, whole]
      exact bind_of_error (blind arguments)
    · rw [left, whole]
      exact keeps
    · rw [left, whole]
      exact method
    · intro value after runs
      cases whole.symm.trans runs
  | ok value after =>
    have whole : (action >>= next) running = _ := bind_of_ok ran
    have later := rest value after keeps
    constructor
    · intro arguments
      rw [under, whole]
      exact (bind_of_ok (blind arguments)).trans (later.blind arguments)
    · rw [left, whole]
      exact later.shares
    · rw [left, whole]
      exact later.method.trans method
    · intro value after runs
      exact later.good value after (whole.symm.trans runs)

theorem Aloof.pure {value : α} (good : Good value) : Aloof home Good (pure value) := by
  refine fun _ shares => ⟨fun _ => rfl, shares, rfl, ?_⟩
  rintro _ _ ⟨⟩
  exact good

theorem Aloof.throw (error : RuntimeError) : Aloof home Good (throw error) :=
  fun _ shares => ⟨fun _ => rfl, shares, rfl, nofun⟩

theorem Aloof.invalid (reason : String) : Aloof home Good (invalid reason) :=
  fun _ shares => ⟨fun _ => rfl, shares, rfl, nofun⟩

theorem Aloof.frame {next : Frame -> Execute α} (rest : ∀ frame, Aloof home Good (next frame))
    (same : ∀ frame arguments, next { frame with arguments } = next frame) :
    Aloof home Good (frame >>= next) := by
  intro running shares
  have ⟨blind, keeps, method, good⟩ := rest running.frame running shares
  refine ⟨fun arguments => ?_, keeps, method, good⟩
  exact (congrFun (same running.frame arguments) _).trans (blind arguments)

theorem Aloof.heap {next : Heap -> Execute α}
    (rest : ∀ heap, home.Shares heap -> Aloof home Good (next heap)) :
    Aloof home Good (heap >>= next) := by
  intro running shares
  have ⟨blind, keeps, method, good⟩ := rest running.heap shares running shares
  exact ⟨blind, keeps, method, good⟩

theorem Aloof.setHeap {heap : Heap} (shares : home.Shares heap) : Aloof home Any (setHeap heap) :=
  fun _ _ => ⟨fun _ => rfl, shares, rfl, fun _ _ _ => trivial⟩

theorem Aloof.check {result : Except RuntimeError α}
    (rest : ∀ value, result = .ok value -> Aloof home Best (next value)) :
    Aloof home Best (check result >>= next) := by
  cases result with
  | ok value => exact rest value rfl
  | error => exact fun _ shares => ⟨fun _ => rfl, shares, rfl, nofun⟩

theorem Aloof.converted (result : Except ConversionError α) :
    Aloof home Any (converted result) := by
  cases result with
  | ok => exact .pure trivial
  | error => exact .throw _

theorem Aloof.moveTo (position : Nat) : Aloof home Any (moveTo position) :=
  fun _ shares => ⟨fun _ => rfl, shares, rfl, fun _ _ _ => trivial⟩

theorem Aloof.push (value : Value) : Aloof home Any (push value) :=
  fun _ shares => ⟨fun _ => rfl, shares, rfl, fun _ _ _ => trivial⟩

theorem Aloof.setOperands (operands : List Value) : Aloof home Any (setOperands operands) :=
  fun _ shares => ⟨fun _ => rfl, shares, rfl, fun _ _ _ => trivial⟩

theorem Aloof.found (hash : TypeHash) (entry : Option α) : Aloof home Any (found hash entry) := by
  cases entry with
  | some => exact .pure trivial
  | none => exact .throw _

end

section

variable {home : Heap}

/-! ## Operands and the stack -/

theorem Aloof.readByte : Aloof home Any readByte := by
  refine .frame (fun frame => ?_) fun _ _ => rfl
  cases frame.method.chunk.byte? frame.position with
  | some => exact .bind (.moveTo _) fun _ => .pure trivial
  | none => exact .invalid _

theorem Aloof.readWord : Aloof home Any readWord := by
  refine .frame (fun frame => ?_) fun _ _ => rfl
  cases frame.method.chunk.word? frame.position with
  | some => exact .bind (.moveTo _) fun _ => .pure trivial
  | none => exact .invalid _

theorem Aloof.constant (index : Nat) : Aloof home Any (constant index) := by
  refine .frame (fun frame => ?_) fun _ _ => rfl
  cases frame.method.pool.get? index >>= Constant.value? with
  | some => exact .pure trivial
  | none => exact .invalid _

theorem Aloof.readHash : Aloof home Any readHash := by
  refine .bind .readWord fun word => .frame (fun frame => ?_) fun _ _ => rfl
  cases frame.method.pool.get? word.toNat >>= Constant.hash? with
  | some => exact .pure trivial
  | none => exact .invalid _

theorem Aloof.pop : Aloof home Any pop := by
  refine .frame (fun frame => ?_) fun _ _ => rfl
  cases frame.operands with
  | nil => exact .invalid _
  | cons _ rest => exact .bind (.setOperands rest) fun _ => .pure trivial

theorem Aloof.popMany (count : Nat) : Aloof home Any (popMany count) := by
  refine .frame (fun frame => ?_) fun _ _ => rfl
  by_cases enough : count ≤ frame.operands.length
  · rw [if_pos enough]
    exact .bind (.setOperands _) fun _ => .pure trivial
  · rw [if_neg enough]
    exact .invalid _

theorem Aloof.popCopied : Aloof home Any popCopied := by
  refine .bind .pop fun value => .heap fun heap shares => ?_
  exact .bind (.setHeap (shares.copied value)) fun _ => .pure trivial

theorem Aloof.popBool : Aloof home Any popBool := .bind .pop fun _ => .converted _

theorem Aloof.popIndices (rank : UInt8) : Aloof home Any (popIndices rank) :=
  .bind (.popMany _) fun _ => .bind (.converted _) fun _ => .pure trivial

theorem Aloof.getLocal (slot : UInt16) : Aloof home Any (getLocal slot) := by
  refine .frame (fun frame => ?_) fun _ _ => rfl
  cases frame.locals[slot.toNat]? with
  | some => exact .pure trivial
  | none => exact .invalid _

theorem Aloof.setLocal (slot : UInt16) (value : Value) : Aloof home Any (setLocal slot value) := by
  refine .frame (fun frame => ?_) fun _ _ => rfl
  split
  · exact fun _ shares => ⟨fun _ => rfl, shares, rfl, fun _ _ _ => trivial⟩
  · exact .invalid _

theorem Aloof.expectObject (value : Value) (member : String) :
    Aloof home Any (expectObject value member) := by
  cases value <;> first | exact .pure trivial | exact .throw _

theorem Aloof.expectArray (value : Value) : Aloof home Any (expectArray value) := by
  cases value <;> first | exact .pure trivial | exact .throw _

theorem Aloof.expectFunction (value : Value) : Aloof home Any (expectFunction value) := by
  cases value <;> first | exact .pure trivial | exact .throw _

theorem Aloof.requireReceiver (value : Value) (member : String) :
    Aloof home Any (requireReceiver value member) := by
  cases value <;> first | exact .pure trivial | exact .throw _

/-! ## Instructions -/

theorem Aloof.andNext (first : Aloof home Good action) :
    Aloof home Calm (action >>= fun _ => Pure.pure .next) :=
  first.bind fun _ => .pure trivial

theorem Aloof.pushing (aloof : Aloof home Any value) : Aloof home Calm (pushing value) :=
  aloof.bind fun _ => .andNext (.push _)

theorem Aloof.onTwo (operation : Value -> Value -> Except RuntimeError Value) :
    Aloof home Calm (onTwo operation) :=
  .bind .pop fun _ => .bind .pop fun _ => .check fun _ _ => .andNext (.push _)

theorem Aloof.onOne (operation : Value -> Except RuntimeError Value) :
    Aloof home Calm (onOne operation) :=
  .bind .pop fun _ => .check fun _ _ => .andNext (.push _)

theorem Aloof.hostCallee (method : MethodEntry) (receiver : Option Value)
    (arguments : List Value) (keep : Bool) : Aloof home Calm
      (hostCallee method receiver arguments >>= fun callee => Pure.pure (.call callee keep)) := by
  unfold Execute.hostCallee
  cases method.body with
  | host => exact .pure trivial
  | delegateInvoke =>
    cases receiver with
    | some value =>
      simp only [bind_assoc]
      exact .bind (.expectFunction value) fun _ => .pure trivial
    | none => exact .throw _

theorem Aloof.callStatic (catalog : Catalog) : Aloof home Calm (callStatic catalog) :=
  .bind .readHash fun _ => .bind .readByte fun _ => .bind (.popMany _) fun _ =>
    .bind (.found _ _) fun _ => .hostCallee _ _ _ _

theorem Aloof.callOnReceiver (catalog : Catalog) (isVirtual : Bool) :
    Aloof home Calm (callOnReceiver catalog isVirtual) :=
  .bind .readHash fun _ => .bind .readByte fun _ => .bind (.popMany _) fun _ =>
    .bind (.found _ _) fun _ => .bind .pop fun _ =>
      .bind (.requireReceiver _ _) fun _ => .heap fun _ _ => .hostCallee _ _ _ _

theorem Aloof.callUnit : Aloof home Any callUnit := by
  refine .bind .readByte fun index => .bind .readByte fun count => ?_
  refine .frame (fun frame => ?_) fun _ _ => rfl
  cases frame.method.callees[index.toNat]? with
  | some => exact .bind (.popMany _) fun _ => .pure trivial
  | none => exact .invalid _

variable (catalog : Catalog)

include catalog

theorem Aloof.new : Aloof home Calm (new catalog) := by
  refine .bind .readHash fun type => .bind .readHash fun hash => ?_
  refine .bind .readByte fun count => .bind (.popMany _) fun arguments => ?_
  refine .bind (.found _ _) fun constructor => ?_
  cases constructor.body with
  | host => exact .pure trivial
  | delegateInvoke => exact .throw _

theorem Aloof.getField : Aloof home Calm (getField catalog) := by
  refine .bind .readHash fun hash => .bind (.found _ _) fun field => ?_
  refine .bind .pop fun value => .bind (.expectObject _ _) fun ref => ?_
  refine .heap fun heap shares => .check fun result read => ?_
  have change := (field.access.spares_get heap ref).of_ok read
  exact .bind (.setHeap (shares.trans (.of_change change))) fun _ => .andNext (.push _)

theorem Aloof.setField : Aloof home Calm (setField catalog) := by
  refine .bind .readHash fun hash => .bind (.found _ _) fun field => ?_
  refine .bind .popCopied fun value => .bind .pop fun target => ?_
  refine .bind (.expectObject _ _) fun ref => .heap fun heap shares => ?_
  refine .check fun after stored => ?_
  have change := (field.access.spares_set heap ref value).of_ok stored
  exact .andNext (.setHeap (shares.trans (.of_change change)))

theorem Aloof.dispatched (isVirtual : Bool) (receiver : Value) (property : PropertyEntry) :
    Aloof home Any (dispatched catalog isVirtual receiver property) := by
  refine .heap fun heap _ => ?_
  cases heap.runtimeType receiver with
  | some | none => exact .pure trivial

theorem Aloof.readProperty (property : PropertyEntry) (receiver : Option Value) :
    Aloof home Calm (readProperty catalog property receiver) := by
  unfold Execute.readProperty
  cases property.getter with
  | some => exact .pure trivial
  | none => exact .throw _

theorem Aloof.writeProperty (property : PropertyEntry) (receiver : Option Value) (value : Value) :
    Aloof home Calm (writeProperty catalog property receiver value) := by
  unfold Execute.writeProperty
  cases property.setter with
  | some => exact .pure trivial
  | none => exact .throw _

theorem Aloof.getProperty (isVirtual : Bool) : Aloof home Calm (getProperty catalog isVirtual) :=
  .bind .readHash fun _ => .bind (.found _ _) fun _ => .bind .pop fun _ =>
    .bind (.requireReceiver _ _) fun _ => .bind (.dispatched _ _ _ _) fun _ => .readProperty _ _ _

theorem Aloof.getStaticProperty : Aloof home Calm (getStaticProperty catalog) :=
  .bind .readHash fun _ => .bind (.found _ _) fun _ => .readProperty _ _ _

theorem Aloof.setProperty (isVirtual : Bool) : Aloof home Calm (setProperty catalog isVirtual) :=
  .bind .readHash fun _ => .bind (.found _ _) fun _ => .bind .pop fun _ =>
    .bind .pop fun _ => .bind (.requireReceiver _ _) fun _ =>
      .bind (.dispatched _ _ _ _) fun _ => .writeProperty _ _ _ _

theorem Aloof.setStaticProperty : Aloof home Calm (setStaticProperty catalog) :=
  .bind .readHash fun _ => .bind (.found _ _) fun _ => .bind .pop fun _ => .writeProperty _ _ _ _

omit catalog

theorem Aloof.dimensions (sizes : List Int) : Aloof home Any (dimensions sizes) := by
  induction sizes with
  | nil => exact .pure trivial
  | cons size _ ih =>
    rw [Execute.dimensions]
    by_cases negative : size < 0
    · simp only [if_pos negative]
      have fails : Aloof home Any (MonadExcept.throw (.indexOutOfRange size 0) : Execute Unit) :=
        .throw _
      exact fails.bind fun _ => ih.bind fun _ => .pure trivial
    · simp only [if_neg negative]
      exact ih.bind fun _ => .pure trivial

theorem Aloof.newArray : Aloof home Calm newArray := by
  refine .bind .readHash fun element => .bind .readByte fun rank => ?_
  refine .bind (.popIndices _) fun indices => .bind (.dimensions _) fun sizes => ?_
  refine .heap fun heap shares => .check fun made isMade => ?_
  have change := ((heap.spares_newArray element sizes _).of_ok isMade).1
  exact .bind (.setHeap (shares.trans (.of_change change))) fun _ => .andNext (.push _)

theorem Aloof.loadElement : Aloof home Calm loadElement :=
  .bind .readByte fun _ => .bind (.popIndices _) fun _ => .bind .pop fun _ =>
    .bind (.expectArray _) fun _ => .heap fun _ _ => .check fun _ _ => .andNext (.push _)

theorem Aloof.storeElement : Aloof home Calm storeElement :=
  .bind .readByte fun _ => .bind .popCopied fun _ => .bind (.popIndices _) fun _ =>
    .bind .pop fun _ => .bind (.expectArray _) fun _ => .heap fun _ shares => .check fun _ stored => by
      rcases Heap.setItem_ok stored with ⟨_, _, rfl⟩
      exact .andNext (.setHeap ⟨shares.functions, shares.delegates⟩)

theorem Aloof.invokeDelegate : Aloof home Calm invokeDelegate :=
  .bind .readByte fun _ => .bind (.popMany _) fun _ => .bind .pop fun _ =>
    .bind (.expectFunction _) fun _ => .heap fun _ _ => .pure trivial

theorem Aloof.convert : Aloof home Calm convert := by
  refine .bind .readByte fun byte => ?_
  cases NumericKind.ofByte? byte with
  | some => exact .onOne _
  | none => exact .invalid _

theorem Aloof.jumpIfFalse : Aloof home Calm jumpIfFalse := by
  refine .bind .readWord fun distance => .bind .popBool fun truth => ?_
  cases truth with
  | true => exact .pure trivial
  | false =>
    exact .frame (fun _ => .andNext (.moveTo _)) fun _ _ => rfl

theorem Aloof.loop : Aloof home Calm loop := by
  refine .bind .readWord fun distance => .frame (fun frame => ?_) fun _ _ => rfl
  by_cases within : distance.toNat ≤ frame.position
  · simp only [if_pos within]
    exact .andNext (.moveTo _)
  · simp only [if_neg within]
    exact .invalid _

/-- All instructions but five are aloof and call no compiled method. -/
theorem Aloof.operation (catalog : Catalog) (aloof : opcode.isAloof = true) :
    Aloof home Calm (operation catalog opcode) := by
  cases opcode with
  | getArg | setArg | callSelf | loadDelegate | callUnit => cases aloof
  | constant => exact .pushing (.bind .readByte fun _ => .constant _)
  | constantWide => exact .pushing (.bind .readWord fun _ => .constant _)
  | pushNull | pushTrue | pushFalse => exact .pushing (.pure trivial)
  | pushDefault => exact .pushing (.bind .readHash fun _ => .pure trivial)
  | pop | returnValue => exact .bind .pop fun _ => .pure trivial
  | dup =>
    exact .bind .pop fun _ => .bind (.push _) fun _ => .andNext (.push _)
  | getLocal => exact .pushing (.bind .readWord fun _ => .getLocal _)
  | setLocal =>
    exact .bind .readWord fun _ => .bind .popCopied fun _ =>
      .andNext (.setLocal _ _)
  | add | sub | mul | div | rem | bitAnd | bitOr | bitXor | shl | shr | eq | lt | gt =>
    exact .onTwo _
  | neg | not | bitNot => exact .onOne _
  | convert => exact .convert
  | jump =>
    exact .bind .readWord fun _ => .frame (fun _ => .andNext (.moveTo _)) fun _ _ => rfl
  | jumpIfFalse => exact .jumpIfFalse
  | loop => exact .loop
  | callStatic => exact .callStatic catalog
  | callMethod => exact .callOnReceiver catalog false
  | callVirtual => exact .callOnReceiver catalog true
  | new => exact .new catalog
  | returnVoid => exact .pure trivial
  | getField => exact .getField catalog
  | setField => exact .setField catalog
  | getProperty => exact .getProperty catalog false
  | getPropertyVirtual => exact .getProperty catalog true
  | getStaticProperty => exact .getStaticProperty catalog
  | setProperty => exact .setProperty catalog false
  | setPropertyVirtual => exact .setProperty catalog true
  | setStaticProperty => exact .setStaticProperty catalog
  | newArray => exact .newArray
  | loadElement => exact .loadElement
  | storeElement => exact .storeElement
  | invokeDelegate => exact .invokeDelegate

end
/-! ## All instructions -/

/-- A part of an instruction that leaves the functions alone, also when it fails,
and stays in its method. -/
def Steady (action : Execute α) : Prop :=
  ∀ running : Running, running.heap.Shares (left action running).heap
    ∧ (left action running).frame.method = running.frame.method

theorem Steady.of_aloof {Good : α -> Prop} (aloof : ∀ home, Aloof home Good action) :
    Steady action :=
  fun running => ⟨(aloof running.heap running (.refl _)).shares,
    (aloof running.heap running (.refl _)).method⟩

theorem Steady.bind {next : α -> Execute β} (first : Steady action)
    (rest : ∀ value, Steady (next value)) : Steady (action >>= next) := by
  intro running
  have ⟨shares, stays⟩ := first running
  unfold left at shares stays ⊢
  cases ran : action running with simp only [ran] at shares stays
  | error =>
    rw [bind_of_error ran]
    exact ⟨shares, stays⟩
  | ok value after =>
    rw [bind_of_ok ran]
    have ⟨later, further⟩ := rest value after
    exact ⟨shares.trans later, further.trans stays⟩

theorem Steady.getArgument (slot : UInt8) : Steady (getArgument slot) := by
  intro running
  rw [left, Execute.getArgument, frame_bind]
  cases running.frame.arguments[slot.toNat]? with
  | some | none => exact ⟨.refl _, rfl⟩

theorem Steady.setArgument (slot : UInt8) (value : Value) : Steady (setArgument slot value) := by
  intro running
  rw [left, Execute.setArgument, frame_bind]
  by_cases inside : slot.toNat < running.frame.arguments.size
  · rw [if_pos inside]
    exact ⟨.refl _, rfl⟩
  · rw [if_neg inside]
    exact ⟨.refl _, rfl⟩

theorem Steady.callSelf : Steady callSelf := by
  refine .bind (.of_aloof fun _ => .readByte) fun count => ?_
  refine .bind (.of_aloof fun _ => .popMany _) fun arguments => ?_
  exact fun running => ⟨.refl _, rfl⟩

/-- All instructions but the load of a function leave the functions alone. -/
theorem Steady.operation (catalog : Catalog) (loads : opcode ≠ .loadDelegate) :
    Steady (operation catalog opcode) := by
  have next : Steady (pure Continuation.next) := fun running => ⟨.refl _, rfl⟩
  have pushes (value : Value) : Steady (push value >>= fun _ => pure Continuation.next) :=
    .bind (.of_aloof fun _ => .push value) fun _ => next
  cases opcode with
  | loadDelegate => exact absurd rfl loads
  | getArg => exact .bind (.bind (.of_aloof fun _ => .readByte) .getArgument) pushes
  | setArg =>
    refine .bind (.of_aloof fun _ => .readByte) fun slot => ?_
    refine .bind (.of_aloof fun _ => .popCopied) fun value => ?_
    exact .bind (.setArgument slot value) fun _ => next
  | callSelf => exact .callSelf
  | callUnit => exact .of_aloof fun _ => .callUnit
  | _ => exact .of_aloof fun _ => .operation catalog rfl

/-! ## The instruction at hand -/

section

variable {catalog : Catalog} {running after : Running}

theorem Steady.method {action : Execute α} {value : α} (steady : Steady action)
    (ran : action running = .ok value after) : after.frame.method = running.frame.method := by
  have stays := (steady running).2
  rw [left, ran] at stays
  exact stays

theorem readByte_none (isEnd : running.frame.method.chunk.byte? running.frame.position = none) :
    readByte running = .error (.invalidBytecode running.frame.position "unexpected end of code")
      running := by
  rw [readByte, frame_bind, isEnd]
  rfl

theorem instruction_cases (catalog : Catalog) (running : Running) :
    (∃ error position, instruction catalog running
        = .error error ⟨{ running.frame with position }, running.heap⟩)
      ∨ ∃ opcode, instruction catalog running = operation catalog opcode
        ⟨running.frame.past 1, running.heap⟩ := by
  cases isByte : running.frame.method.chunk.byte? running.frame.position with
  | none =>
    have fails : readByte running = _ := readByte_none isByte
    exact .inl ⟨_, _, bind_of_error (bind_of_error fails)⟩
  | some byte =>
    have here : running.frame.method.chunk.Holds running.frame.position [byte] := ⟨isByte, trivial⟩
    have read : readByte running = _ := readByte_of_holds here
    rw [instruction, readOpcode, bind_assoc, bind_of_ok read]
    cases Opcode.ofByte? byte with
    | none => exact .inl ⟨_, _, rfl⟩
    | some opcode => exact .inr ⟨opcode, rfl⟩

theorem loadDelegate_cases (running : Running) : (∃ error position, loadDelegate running
        = .error error ⟨{ running.frame with position }, running.heap⟩)
      ∨ ∃ lambda, lambda ∈ running.frame.method.lambdas ∧ loadDelegate running
        = .ok .next ⟨running.frame.past 1
          (.function (running.heap.delegate lambda).1 :: running.frame.operands),
            (running.heap.delegate lambda).2⟩ := by
  cases isByte : running.frame.method.chunk.byte? running.frame.position with
  | none =>
    have fails : readByte running = _ := readByte_none isByte
    exact .inl ⟨_, _, bind_of_error fails⟩
  | some byte =>
    have here : running.frame.method.chunk.Holds running.frame.position [byte] := ⟨isByte, trivial⟩
    have read : readByte running = _ := readByte_of_holds here
    rw [loadDelegate, bind_of_ok read, frame_bind]
    cases found : running.frame.method.lambdas[byte.toNat]? with
    | none => exact .inl ⟨_, _, rfl⟩
    | some lambda => exact .inr ⟨lambda, List.mem_of_getElem? found, rfl⟩

/-- What becomes of the functions by an instruction, also when it fails. -/
theorem functions_instruction (catalog : Catalog) (running : Running) :
    (left (instruction catalog) running).frame.method = running.frame.method
      ∧ (running.heap.Shares (left (instruction catalog) running).heap
        ∨ ∃ lambda, lambda ∈ running.frame.method.lambdas
          ∧ (left (instruction catalog) running).heap = (running.heap.delegate lambda).2) := by
  unfold left
  rcases instruction_cases catalog running with ⟨error, position, fails⟩ | ⟨opcode, executes⟩
  · rw [fails]
    exact ⟨rfl, .inl (.refl _)⟩
  · rw [executes]
    by_cases loads : opcode = .loadDelegate
    · subst loads
      rcases loadDelegate_cases ⟨running.frame.past 1, running.heap⟩ with
        ⟨error, position, fails⟩ | ⟨lambda, member, loaded⟩
      · rw [show operation catalog .loadDelegate _ = _ from fails]
        exact ⟨rfl, .inl (.refl _)⟩
      · rw [show operation catalog .loadDelegate _ = _ from loaded]
        exact ⟨rfl, .inr ⟨lambda, member, rfl⟩⟩
    · have ⟨shares, stays⟩ := Steady.operation catalog loads ⟨running.frame.past 1, running.heap⟩
      exact ⟨stays, .inl shares⟩

/-- The compiled methods that an instruction calls are the running one and those
in its table. -/
theorem instruction_calls (calls : instruction catalog running
      = .ok (.call (.method method receiver arguments) keep) after) :
    method ∈ running.frame.method :: running.frame.method.callees := by
  rcases instruction_cases catalog running with ⟨error, position, fails⟩ | ⟨opcode, executes⟩
  · rw [fails] at calls
    cases calls
  · rw [executes] at calls
    have reads : Steady readByte := .of_aloof fun _ => .readByte
    cases opcode with
    | callUnit =>
      obtain ⟨index, first, readIndex, calls⟩ := ok_of_bind calls
      obtain ⟨count, second, readCount, calls⟩ := ok_of_bind calls
      have same := (reads.method readCount).trans (reads.method readIndex)
      rw [frame_bind] at calls
      cases found : second.frame.method.callees[index.toNat]? with rw [found] at calls
      | none => cases calls
      | some =>
        obtain ⟨values, third, _, given⟩ := ok_of_bind calls
        cases given
        rw [same] at found
        exact .tail _ (List.mem_of_getElem? found)
    | callSelf =>
      obtain ⟨count, first, readCount, calls⟩ := ok_of_bind calls
      obtain ⟨values, second, popped, calls⟩ := ok_of_bind calls
      have pops : Steady (popMany count.toNat) := .of_aloof fun _ => .popMany _
      have same := (pops.method popped).trans (reads.method readCount)
      cases calls
      exact same ▸ .head _
    | getArg =>
      obtain ⟨value, first, _, calls⟩ := ok_of_bind calls
      cases calls
    | setArg =>
      obtain ⟨_, _, _, calls⟩ := ok_of_bind calls
      obtain ⟨value, second, _, calls⟩ := ok_of_bind calls
      obtain ⟨_, _, _, calls⟩ := ok_of_bind calls
      cases calls
    | loadDelegate =>
      rcases loadDelegate_cases _ with ⟨error, position, fails⟩ | ⟨lambda, _, loaded⟩
      · cases fails.symm.trans calls
      · cases loaded.symm.trans calls
    | _ => exact False.elim ((Aloof.operation catalog rfl _ (.refl _)).good _ _ calls)

end

end Execute
end OpMachine
