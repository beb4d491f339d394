import OpMachine.Proofs.Simulation
import OpMachine.Proofs.TranslatedInstructions

namespace OpMachine

/-!
# The slots of temporaries

A piece of code stores in the slots of locals and in temporaries of its own,
and these have slots from a number on.  A temporary that was taken before the
code was emitted lies below that number and belongs to no local.  Hence the code
stores in it nowhere: `Compile.Translates.avoids`.

Code with temporaries follows an evaluation as other code does.  Values that are
spilled one after the other are all there when they are loaded again, and a
value that is kept in a temporary is there after the store that it is kept for.
-/

/-! ## Slots that code leaves alone -/

variable {slot : UInt16} {instruction : Instruction}

theorem MarkedCode.avoids_single
    (other : instruction.opcode ≠ .setLocal) : MarkedCode.Avoids (.single instruction) slot :=
  Code.every_single fun same => other (congrArg Instruction.opcode same)

theorem Compile.Translates.avoids {outer : Surroundings} {origin : Catalog} {finished : Body}
    {depth low : Nat} {slot : UInt16} {task : Task} {code : MarkedCode}
    (translates : Translates outer origin finished depth low task code)
    (below : slot.toNat < low)
    (unnamed : ∀ id : SymbolId, finished.slots.locals[id]? ≠ some slot) :
    code.Avoids slot := by
  rintro instruction member rfl
  rcases (translates.servesAny (Nat.le_refl low) _ member).setsLocal with ⟨id, found⟩ | temporary
  · exact unnamed id found
  · -- A temporary lies above every slot that was taken before it.
    exact Nat.not_lt_of_le temporary.above below

/-! ## Values in temporaries -/

/-- Slots that hold given values. -/
def Frame.Recalls (frame : Frame) (slots : List UInt16) (values : List Value) : Prop :=
  (slots.map fun slot => frame.locals[slot.toNat]?) = values.map some

open MarkedCode

namespace Situation

variable {β : Type} {situation : Situation} {rounds : Nat} {finished : Body} {low : Nat}
  {slot : UInt16} {frame : Frame} {world : World} {value : Value} {slots : List UInt16}

theorem reaches_setTemporary (isTable : situation.table = finished.slots)
    (temporary : finished.Temporary low slot) (shared : Shared value)
    (operands : frame.operands = value :: rest) (placed : frame.At (setLocal slot))
    (held : situation.Holds world frame) :
    ∃ next : Frame, (situation.running world.heap frame).Reaches situation.host
          (situation.running world.heap next)
        ∧ frame.Advances next (setLocal slot) rest ∧ situation.Holds world next
        ∧ next.locals[slot.toNat]? = some value := by
  have inside : slot.toNat < frame.locals.size := by
    rw [held.store.localCount, isTable]
    exact temporary.inside
  have unnamed : ∀ id : SymbolId, situation.table.locals[id]? ≠ some slot :=
    isTable ▸ temporary.unnamed
  have executes : Execute.instruction situation.host.catalog ⟨frame, world.heap⟩ = _ :=
    Execute.instruction_setLocal placed.single operands shared inside
  refine ⟨_, .single (running_next executes), ⟨rfl, rfl, rfl, fun _ => locals_of_avoids⟩,
    ⟨held.store.setTemporary unnamed value, held.heap⟩, ?_⟩
  exact Array.getElem?_setIfInBounds_self_of_lt inside

theorem reaches_getLocal (situation : Situation) (found : frame.locals[slot.toNat]? = some value)
    (placed : frame.At (getLocal slot)) (heap : Heap) :
    ∃ next : Frame,
      (situation.running heap frame).Reaches situation.host (situation.running heap next)
        ∧ frame.Advances next (getLocal slot) (value :: frame.operands)
        ∧ next.arguments = frame.arguments ∧ next.locals = frame.locals := by
  have executes : Execute.instruction situation.host.catalog ⟨frame, heap⟩ = _ :=
    Execute.instruction_getLocal placed.single found
  exact ⟨_, .single (running_next executes), ⟨rfl, rfl, rfl, fun _ _ => rfl⟩, rfl, rfl⟩

theorem reaches_reload (situation : Situation) (recalls : frame.Recalls slots values)
    (placed : frame.At (reload slots)) (heap : Heap) : ∃ next : Frame,
      (situation.running heap frame).Reaches situation.host (situation.running heap next)
        ∧ frame.Advances next (reload slots) (values.reverse ++ frame.operands)
        ∧ next.arguments = frame.arguments ∧ next.locals = frame.locals := by
  induction slots generalizing frame values with
  | nil =>
    cases List.map_eq_nil_iff.mp recalls.symm
    exact ⟨frame, .refl _, ⟨rfl, rfl, rfl, fun _ _ => rfl⟩, rfl, rfl⟩
  | cons _ _ ih =>
    cases values with
    | nil => cases recalls
    | cons =>
      obtain ⟨found, others⟩ := List.cons.inj recalls
      obtain ⟨middle, reaches, advances, sameArguments, sameLocals⟩ :=
        reaches_getLocal situation found placed.first heap
      obtain ⟨next, reachesNext, advancesNext, nextArguments, nextLocals⟩ :=
        ih (by rw [Frame.Recalls, sameLocals]; exact others) (placed.second advances)
      rw [advances.operands] at advancesNext
      refine ⟨next, reaches.trans reachesNext, ?_, nextArguments.trans sameArguments,
        nextLocals.trans sameLocals⟩
      rw [List.reverse_cons, List.append_assoc]
      exact advances.trans advancesNext

/-- Code that evaluates expressions and leaves their values in temporaries. -/
def Spills (situation : Situation) (rounds : Nat) (slots : List UInt16) (code : MarkedCode)
    (action : Perform (List Value)) : Prop :=
  ∀ (frame : Frame) (world : World), frame.method = situation.method -> frame.At code ->
    situation.Holds world frame ->
      situation.Leads rounds (situation.running world.heap frame)
        (fun values later machine => AllShared slots.length values
          ∧ ∃ next, machine = situation.running later.heap next
            ∧ frame.Advances next code frame.operands ∧ situation.Holds later next
            ∧ next.Recalls slots values)
        (action world)

theorem spills_nothing : situation.Spills rounds [] .empty (pure []) := by
  intro frame world isMethod placed held
  exact .here ⟨⟨rfl, nofun⟩, frame, rfl, ⟨rfl, rfl, rfl, fun _ _ => rfl⟩, held, rfl⟩

/-- A value is spilled before the next expressions are evaluated, and their code
leaves it alone. -/
theorem Spills.cons {slots : List UInt16} (isTable : situation.table = finished.slots)
    (temporary : finished.Temporary low slot) (avoids : second.Avoids slot)
    (head : situation.Simulates rounds [] first action Shared fun value => .on [value])
    (tail : situation.Spills rounds slots second others) :
    situation.Spills rounds (slot :: slots) (first ++ (setLocal slot ++ second)) (do
      let value ← action
      let values ← others
      return value :: values) := by
  intro frame world isMethod placed held
  refine (head frame frame.operands world isMethod rfl placed.first held).bind ?_
  rintro _ headWorld _ ⟨shared, _, rfl, advances, middleHeld⟩
  have storePlaced := placed.second advances
  obtain ⟨stored, reaches, advancesStore, storedHeld, found⟩ :=
    reaches_setTemporary isTable temporary shared advances.operands storePlaced.first middleHeld
  have storedMethod := (advancesStore.method.trans advances.method).trans isMethod
  refine .reached reaches (.bind (tail stored headWorld storedMethod
    (storePlaced.second advancesStore) storedHeld) ?_)
  rintro _ _ _ ⟨⟨count, allShared⟩, next, rfl, advancesTail, nextHeld, recalls⟩
  rw [advancesStore.operands] at advancesTail
  refine .here ⟨⟨congrArg (· + 1) count, ?_⟩, next, rfl,
    advances.trans (advancesStore.trans advancesTail), nextHeld,
    List.cons_eq_cons.mpr ⟨?_, recalls⟩⟩
  · exact List.forall_mem_cons.mpr ⟨shared, allShared⟩
  · exact (advancesTail.locals slot avoids).trans found

/-- What was spilled can be loaded again, here twice. -/
theorem Spills.reloaded (spills : situation.Spills rounds slots first action)
    (later : ∀ values, AllShared slots.length values ->
      situation.Simulates rounds (values.reverse ++ values.reverse) second (next values) Good
        passage) :
    situation.Simulates rounds [] (first ++ (reload slots ++ (reload slots ++ second)))
      (action >>= next) Good passage := by
  intro frame rest world isMethod operands placed held
  refine (spills frame world isMethod placed.first held).bind ?_
  rintro values spilledWorld _ ⟨shared, _, rfl, advances, spilledHeld, recalls⟩
  have onceAt := placed.second advances
  obtain ⟨_, reachesOnce, advancesOnce, onceArguments, onceLocals⟩ :=
    reaches_reload situation recalls onceAt.first spilledWorld.heap
  have twiceAt := onceAt.second advancesOnce
  obtain ⟨twice, reachesTwice, advancesTwice, twiceArguments, twiceLocals⟩ :=
    reaches_reload situation (by rw [Frame.Recalls, onceLocals]; exact recalls)
      twiceAt.first spilledWorld.heap
  have twiceMethod : twice.method = situation.method :=
    ((advancesTwice.method.trans advancesOnce.method).trans advances.method).trans isMethod
  have twiceOperands : twice.operands = values.reverse ++ values.reverse ++ rest := by
    rw [advancesTwice.operands, advancesOnce.operands, advances.operands, operands,
      List.nil_append, List.append_assoc]
  have twiceHeld : situation.Holds spilledWorld twice := by
    refine { spilledHeld with store := ?_ }
    rw [twiceArguments, onceArguments, twiceLocals, onceLocals]
    exact spilledHeld.store
  refine .reached (reachesOnce.trans reachesTwice) (.arriving (later values shared twice rest
    spilledWorld twiceMethod twiceOperands (twiceAt.second advancesTwice) twiceHeld) ?_)
  intro heap last others further
  exact ⟨last, .refl _, advances.trans (advancesOnce.trans (advancesTwice.trans further)), rfl, rfl⟩

/-- A store above other operands, behind which a wanted value is loaded from its
temporary. -/
theorem Simulates.storesAbove {store code : MarkedCode} (isTable : situation.table = finished.slots)
    (above : Compile.StoresAbove finished low store use code) (shared : Shared value)
    (avoids : ∀ slot, store.Avoids slot)
    (stores : situation.Simulates rounds (value :: below) store action (fun _ => True)
      fun _ => .on []) :
    situation.Simulates rounds (value :: below) code (do
      action
      return value) Shared (Passage.keeping (use = .kept)) := by
  cases above with
  | discarded => exact stores.answering (fun _ => value) fun _ _ => ⟨shared, rfl⟩
  | kept slot temporary =>
    intro frame rest world isMethod operands placed held
    have duplicates : situation.Simulates rounds [value] MarkedCode.dup (pure ())
        (fun _ => True) fun _ => .on [value, value] := .dup value
    obtain ⟨_, reachesDup, _, _, rfl, advancesDup, doubledHeld⟩ :=
      duplicates frame (below ++ rest) world isMethod operands placed.first held
    have keptAt := placed.second advancesDup
    obtain ⟨kept, reaches, advances, keptHeld, found⟩ :=
      reaches_setTemporary isTable temporary shared advancesDup.operands keptAt.first doubledHeld
    have storeAt := keptAt.second advances
    refine .reached (reachesDup.trans reaches) (.bind (stores kept rest world
      ((advances.method.trans advancesDup.method).trans isMethod) advances.operands
      storeAt.first keptHeld) ?_)
    rintro _ later _ ⟨_, _, rfl, advancesStore, storedHeld⟩
    obtain ⟨last, reachesLast, advancesLast, lastArguments, lastLocals⟩ :=
      reaches_getLocal situation
        ((advancesStore.locals slot (avoids slot)).trans found) (storeAt.second advancesStore)
        later.heap
    rw [advancesStore.operands] at advancesLast
    refine .reached reachesLast (.here ⟨shared, last, rfl,
      advancesDup.trans (advances.trans (advancesStore.trans advancesLast)), ?_⟩)
    exact { storedHeld with store := lastArguments ▸ lastLocals ▸ storedHeld.store }

end Situation
end OpMachine
