import OpMachine.Proofs.HostEffects
import OpMachine.Proofs.ScalarExecution
import OpMachine.Proofs.WellFormed

namespace OpMachine

/-!
# Executions from a stance

The stance of a running frame is the frame and the heap laid open as one
record.  `Execute.Yields` says what an execution leads to from a stance, and
there is one rule for each part that instructions are made of.  A failure is
allowed if it does not lie in the code, or if the stack holds fewer values than
are taken from it.  It comes before anything is stored, so the heap that it
leaves has at most more objects on it.
-/

/-- A heap after a failed instruction: nothing is lost, and nothing dangles that
did not before. -/
def Heap.Unharmed (before after : Heap) : Prop :=
  before.Change (fun _ => False) after fun _ => False

theorem Heap.Unharmed.refl (heap : Heap) : heap.Unharmed heap := .handed nofun

theorem Heap.unharmed_copied (heap : Heap) (value : Value) :
    heap.Unharmed (heap.copied value).2 := by
  cases value with
  | object ref =>
    unfold copied
    simp only
    split
    · exact (change_addObject _ fun closed _ slot => closed.payload_slots ref).narrow nofun
    · exact .refl heap
  | _ => exact .refl heap

/-- A frame and its heap as one record. -/
structure Stance where
  method : CompiledMethod
  arguments : Array Value
  locals : Array Value
  operands : List Value
  position : Nat
  heap : Heap

def Running.stance (running : Running) : Stance :=
  { method := running.frame.method
    arguments := running.frame.arguments
    locals := running.frame.locals
    operands := running.frame.operands
    position := running.frame.position
    heap := running.heap }

def Stance.frame (stance : Stance) : Frame :=
  { method := stance.method
    arguments := stance.arguments
    locals := stance.locals
    operands := stance.operands
    position := stance.position }

def Stance.running (stance : Stance) : Running := ⟨stance.frame, stance.heap⟩

namespace Execute

variable {α β : Type}

/-- From a stance, an execution gives a result with a property, or it fails
without blaming the code and without harm to the heap.  If there are not enough
values on the stack it may also fail for that reason. -/
def Yields (enough : Prop) (action : Execute α) (stance : Stance)
    (Result : α -> Stance -> Prop) : Prop :=
  match action stance.running with
  | .ok value after => Result value after.stance
  | .error error after => stance.heap.Unharmed after.heap ∧ (¬ error.BlamesCode
      ∨ ¬ enough ∧ ∃ offset, error = .invalidBytecode offset "stack underflow")

section

variable {enough : Prop} {stance : Stance} {Result : β -> Stance -> Prop} {value : Value}
  {action : Execute β} {after : Running} {next : α -> Execute β} {word : UInt16} {hash : TypeHash}
  {slot : UInt8} {member : String}

theorem Yields.pure {value : β} (good : Result value stance) :
    Yields enough (pure value) stance Result := good

theorem Yields.ok {value : β} (yields : Yields enough action stance Result)
    (runs : action stance.running = .ok value after) : Result value after.stance := by
  unfold Yields at yields
  rw [runs] at yields
  exact yields

theorem Yields.error {error : RuntimeError} (yields : Yields enough action stance Result)
    (fails : action stance.running = .error error after) : stance.heap.Unharmed after.heap
      ∧ (¬ error.BlamesCode
        ∨ ¬ enough ∧ ∃ offset, error = .invalidBytecode offset "stack underflow") := by
  unfold Yields at yields
  rw [fails] at yields
  exact yields

/-- A failure that has nothing to do with the code, before anything is done. -/
theorem Yields.spared {failure : RuntimeError} (spared : ¬ failure.BlamesCode) :
    Yields enough (throw failure : Execute β) stance Result :=
  ⟨.refl _, .inl spared⟩

theorem Yields.of_unharmed {action : Execute α} {value : α} (after : Stance)
    (unharmed : stance.heap.Unharmed after.heap)
    (runs : action stance.running = .ok value after.running)
    (rest : Yields enough (next value) after Result) :
    Yields enough (action >>= next) stance Result := by
  unfold Yields at rest ⊢
  rw [bind_of_ok runs]
  cases ran : next value after.running with rw [ran] at rest
  | ok => exact rest
  | error => exact rest.imp_left fun later => unharmed.trans (later.widen fun _ => .inl)

theorem Yields.of_ok {action : Execute α} {value : α} (after : Stance)
    (runs : action stance.running = .ok value after.running)
    (rest : Yields enough (next value) after Result) (kept : after.heap = stance.heap) :
    Yields enough (action >>= next) stance Result :=
  .of_unharmed after (kept ▸ .refl stance.heap) runs rest

theorem Yields.of_underflow {action : Execute α} (short : ¬ enough) (fails : action stance.running
      = .error (.invalidBytecode stance.position "stack underflow") stance.running) :
    Yields enough (action >>= next) stance Result := by
  unfold Yields
  rw [bind_of_error fails]
  exact ⟨.refl _, .inr ⟨short, stance.position, rfl⟩⟩

/-! ## Operands -/

theorem Yields.readByte {next : UInt8 -> Execute β}
    (found : stance.method.chunk.byte? stance.position = some byte)
    (rest : Yields enough (next byte) { stance with position := stance.position + 1 } Result) :
    Yields enough (readByte >>= next) stance Result := by
  have holds : stance.frame.method.chunk.Holds stance.frame.position [byte] := ⟨found, trivial⟩
  exact .of_ok { stance with position := stance.position + 1 } (readByte_of_holds holds) rest rfl

theorem Yields.readWord {next : UInt16 -> Execute β}
    (found : stance.method.chunk.word? stance.position = some word)
    (rest : Yields enough (next word) { stance with position := stance.position + 2 } Result) :
    Yields enough (readWord >>= next) stance Result := by
  have read : Execute.readWord stance.running
      = .ok word { stance with position := stance.position + 2 }.running :=
    readWord_run (show stance.frame.method.chunk.word? stance.frame.position = _ from found)
  exact .of_ok _ read rest rfl

theorem Yields.frame {next : Frame -> Execute β}
    (rest : Yields enough (next stance.frame) stance Result) :
    Yields enough (frame >>= next) stance Result := rest

theorem Yields.heap {next : Heap -> Execute β}
    (rest : Yields enough (next stance.heap) stance Result) :
    Yields enough (heap >>= next) stance Result := rest

theorem Yields.push {next : Unit -> Execute β}
    (rest : Yields enough (next ()) { stance with operands := value :: stance.operands } Result) :
    Yields enough (push value >>= next) stance Result := rest

theorem Yields.readHash {next : TypeHash -> Execute β}
    (found : stance.method.chunk.word? stance.position = some word)
    (isHash : stance.method.hash? word.toNat = some hash)
    (rest : Yields enough (next hash) { stance with position := stance.position + 2 } Result) :
    Yields enough (readHash >>= next) stance Result := by
  have present : { stance with position := stance.position + 2 }.frame.method.pool.get? word.toNat
      >>= Constant.hash? = some hash := isHash
  unfold Execute.readHash
  rw [bind_assoc]
  refine .readWord found ?_
  rw [bind_assoc]
  refine .frame ?_
  rw [present]
  exact rest

theorem Yields.constant {next : Value -> Execute β}
    (isValue : stance.method.value? index = some value)
    (rest : Yields enough (next value) stance Result) :
    Yields enough (constant index >>= next) stance Result := by
  have present : stance.frame.method.pool.get? index >>= Constant.value? = some value := isValue
  unfold Execute.constant
  rw [bind_assoc]
  refine .frame ?_
  rw [present]
  exact rest

/-! ## The stack and the slots -/

theorem Yields.pop {next : Value -> Execute β} (some : enough -> 0 < stance.operands.length)
    (rest : ∀ value operands, stance.operands = value :: operands ->
      Yields enough (next value) { stance with operands } Result) :
    Yields enough (pop >>= next) stance Result := by
  cases isStack : stance.operands with
  | nil =>
    have short : ¬ enough := by
      intro holds
      have positive := some holds
      rw [isStack] at positive
      exact Nat.lt_irrefl 0 positive
    refine .of_underflow short ?_
    rcases stance with ⟨method, arguments, locals, operands, position, heap⟩
    cases isStack
    rfl
  | cons value operands =>
    have runs : Execute.pop stance.running = .ok value { stance with operands }.running :=
      pop_run (show stance.frame.operands = value :: operands from isStack)
    exact .of_ok { stance with operands } runs (rest value operands isStack) rfl

theorem Yields.popMany {next : List Value -> Execute β}
    (some : enough -> count ≤ stance.operands.length)
    (rest : ∀ (values operands : List Value), values.length = count ->
      stance.operands = values.reverse ++ operands ->
      Yields enough (next values) { stance with operands } Result) :
    Yields enough (popMany count >>= next) stance Result := by
  by_cases inside : count ≤ stance.operands.length
  · let values := (stance.operands.take count).reverse
    have length : values.length = count := by
      rw [List.length_reverse, List.length_take]
      exact Nat.min_eq_left inside
    have split : stance.operands = values.reverse ++ stance.operands.drop count := by
      rw [List.reverse_reverse, List.take_append_drop]
    have runs : Execute.popMany values.length stance.running
        = .ok values { stance with operands := stance.operands.drop count }.running :=
      popMany_run (show stance.frame.operands = _ from split)
    rw [length] at runs
    exact .of_ok _ runs (rest values _ length split) rfl
  · refine .of_underflow (fun holds => inside (some holds)) ?_
    change (if count ≤ stance.operands.length then _ else _ : Execute (List Value)) _ = _
    rw [if_neg inside]
    rfl

theorem Yields.popCopied {next : Value -> Execute β} (some : enough -> 0 < stance.operands.length)
    (rest : ∀ value operands, stance.operands = value :: operands ->
      Yields enough (next (stance.heap.copied value).1)
        { stance with operands, heap := (stance.heap.copied value).2 } Result) :
    Yields enough (popCopied >>= next) stance Result := by
  unfold Execute.popCopied
  rw [bind_assoc]
  refine .pop some fun value operands isStack => ?_
  let copied := stance.heap.copied value
  have stores : (Execute.heap >>= fun heap => setHeap (heap.copied value).2 >>= fun _ =>
      Pure.pure (heap.copied value).1) { stance with operands }.running
      = .ok copied.1 { stance with operands, heap := copied.2 }.running := rfl
  exact .of_unharmed _ (stance.heap.unharmed_copied value) stores (rest value operands isStack)

theorem Yields.check (spares : Spares result Good)
    (rest : ∀ value, result = .ok value -> Good value ->
      Yields enough (next value) stance Result) :
    Yields enough (check result >>= next) stance Result := by
  cases result with
  | ok value => exact rest value rfl spares
  | error => exact .spared spares

theorem Yields.converted
    (rest : ∀ value, result = .ok value -> Yields enough (next value) stance Result) :
    Yields enough (converted result >>= next) stance Result := by
  cases result with
  | ok value => exact rest value rfl
  | error => exact .spared not_false

theorem Yields.popBool {next : Bool -> Execute β} (some : enough -> 0 < stance.operands.length)
    (rest : ∀ value operands truth, stance.operands = value :: operands ->
      Yields enough (next truth) { stance with operands } Result) :
    Yields enough (popBool >>= next) stance Result := by
  unfold Execute.popBool
  rw [bind_assoc]
  refine .pop some ?_
  intro value operands isStack
  exact .converted fun truth _ => rest value operands truth isStack

theorem Yields.popIndices {next : List Int -> Execute β}
    (some : enough -> rank.toNat ≤ stance.operands.length)
    (rest : ∀ (values operands : List Value) (numbers : List Int64),
      values.length = rank.toNat -> stance.operands = values.reverse ++ operands ->
      values.mapM Conversion.readInt64 = .ok numbers ->
      Yields enough (next (numbers.map (·.toInt))) { stance with operands } Result) :
    Yields enough (popIndices rank >>= next) stance Result := by
  unfold Execute.popIndices
  rw [bind_assoc]
  refine .popMany some ?_
  intro values operands length isStack
  rw [bind_assoc]
  refine .converted ?_
  intro numbers reads
  exact rest values operands numbers length isStack reads

theorem Yields.setArgument {next : Unit -> Execute β} (inside : slot.toNat < stance.arguments.size)
    (rest : Yields enough (next ())
      { stance with arguments := stance.arguments.setIfInBounds slot.toNat value } Result) :
    Yields enough (setArgument slot value >>= next) stance Result :=
  .of_ok { stance with arguments := stance.arguments.setIfInBounds slot.toNat value }
    (setArgument_run inside) rest rfl

theorem Yields.setLocal {next : Unit -> Execute β} {slot : UInt16}
    (inside : slot.toNat < stance.locals.size) (rest : Yields enough (next ())
      { stance with locals := stance.locals.setIfInBounds slot.toNat value } Result) :
    Yields enough (setLocal slot value >>= next) stance Result :=
  .of_ok { stance with locals := stance.locals.setIfInBounds slot.toNat value }
    (setLocal_run inside) rest rfl

/-! ## Receivers and members -/

theorem Yields.found (isThere : answer = some entry)
    (rest : Yields enough (next entry) stance Result) :
    Yields enough (found hash answer >>= next) stance Result := by
  rw [isThere]
  exact rest

theorem Yields.expectObject {next : ObjectRef -> Execute β}
    (rest : ∀ ref, value = .object ref -> Yields enough (next ref) stance Result) :
    Yields enough (expectObject value member >>= next) stance Result := by
  cases value with
  | object ref => exact rest ref rfl
  | _ => exact .spared not_false

theorem Yields.expectArray {next : ArrayRef -> Execute β}
    (rest : ∀ ref, value = .array ref -> Yields enough (next ref) stance Result) :
    Yields enough (expectArray value >>= next) stance Result := by
  cases value with
  | array ref => exact rest ref rfl
  | _ => exact .spared not_false

theorem Yields.expectFunction {next : FunctionRef -> Execute β}
    (rest : ∀ ref, value = .function ref -> Yields enough (next ref) stance Result) :
    Yields enough (expectFunction value >>= next) stance Result := by
  cases value with
  | function ref => exact rest ref rfl
  | _ => exact .spared not_false

theorem Yields.requireReceiver {next : Unit -> Execute β}
    (rest : Yields enough (next ()) stance Result) :
    Yields enough (requireReceiver value member >>= next) stance Result := by
  cases value with
  | null | void => exact .spared not_false
  | _ => exact rest

theorem Yields.dimensions {next : List Nat -> Execute β}
    (rest : ∀ dimensions, Yields enough (next dimensions) stance Result) :
    Yields enough (dimensions sizes >>= next) stance Result := by
  induction sizes generalizing next with
  | nil => exact rest []
  | cons size sizes ih =>
    rw [Execute.dimensions]
    split
    · exact .spared not_false
    · rw [bind_assoc]
      apply ih
      intro others
      exact rest _

theorem Yields.dispatched {next : PropertyEntry -> Execute β} (rest : ∀ entry, entry = property
      ∨ (∃ type, entry = catalog.overridingProperty type property) ->
      Yields enough (next entry) stance Result) :
    Yields enough (dispatched catalog isVirtual receiver property >>= next) stance Result := by
  unfold Execute.dispatched
  rw [bind_assoc]
  refine .heap ?_
  split
  · next type _ =>
    cases isVirtual with
    | true => exact rest _ (.inr ⟨type, rfl⟩)
    | false => exact rest _ (.inl rfl)
  · exact rest _ (.inl rfl)

end
end Execute
end OpMachine
