import OpMachine.Proofs.Compilation

namespace OpMachine
namespace Compile

/-!
# Computations that emit code

`Emits` says that a computation appends the bytes of some structured code and
what is known about this code once the body is finished.  A question asked on
the way is recorded by `Obtains`: it was put to an earlier state of the
finished body and had the given answer there.

Sequencing appends the codes.  The rules for the three jump patterns turn the
writing of a placeholder, the code in between and the patch into one node of
structured code.
-/

/-- Where code is emitted: the surroundings of the body, the catalog that its
compilation began with, the number of object initializers around the code, and
the number of slots that are taken when it begins.  Functions are loaded only
under known symbols, and locals may be declared or not. -/
structure Site where
  outer : Surroundings
  origin : Catalog
  depth : Nat
  low : Nat
  Known : SymbolId -> Prop
  declares : Prop

/-- A body that code at a site may be written to. -/
structure Site.Admits (site : Site) (body : Body) : Prop where
  conservative : site.outer.Conservative
  sound : body.Sound site.outer site.origin
  depth : body.implicitReceivers = site.depth

/-- A later state of a body at the same depth, which is sound. -/
structure Site.Leads (site : Site) (before after : Body) : Prop where
  sound : after.Sound site.outer site.origin
  extended : before.Extends after
  depth : after.implicitReceivers = before.implicitReceivers

/-- The slots below those of a site are taken. -/
def Site.Taken (site : Site) (body : Body) : Prop := site.low ≤ body.slots.localCount

variable {Mark α β : Type} {site : Site} {action : Compile α} {next : α -> Compile β}
  {Result : β -> Body -> Code Mark -> Prop} {before middle after : Body} {emitter : Emitter}
  {label : Label} {whenTrue : Compile Unit} {OnTrue : Body -> Code Mark -> Prop}

theorem Site.Leads.trans (earlier : site.Leads before middle) (later : site.Leads middle after) :
    site.Leads before after :=
  ⟨later.sound, earlier.extended.trans later.extended, later.depth.trans earlier.depth⟩

theorem Site.Admits.step (admits : site.Admits before) (leads : site.Leads before after) :
    site.Admits after :=
  ⟨admits.conservative, leads.sound, leads.depth.trans admits.depth⟩

theorem Site.Taken.step (taken : site.Taken before) (leads : site.Leads before after) :
    site.Taken after :=
  Nat.le_trans taken leads.extended.localCount

/-- A computation appends structured code to a body.  The result is stated for
every finished state of the body. -/
structure Emits (site : Site) (action : Compile α) (Result : α -> Body -> Code Mark -> Prop) :
    Prop where
  stepped : Stepped site.outer site.Known site.declares action
  run : ∀ before value after, site.Admits before -> action before = .ok value after ->
    site.Leads before after ∧ ∃ code, after.values = before.values ++ code.bytes
      ∧ code.Fits ∧ ∀ finished, after.Extends finished -> site.Taken before ->
        Result value finished code

/-- A question, which writes no code. -/
structure Asked (site : Site) (action : Compile α) : Prop where
  stepped : Stepped site.outer site.Known site.declares action
  quiet : site.outer.Conservative -> Quiet site.outer site.origin action

/-- A computation had an answer in an earlier state of a finished body. -/
structure Obtains (surroundings : Surroundings) (origin : Catalog) (depth : Nat)
    (finished : Body) (action : Compile α) (value : α) : Prop where
  intro ::
  run : ∃ before after, before.Sound surroundings origin
    ∧ before.implicitReceivers = depth ∧ action before = .ok value after
    ∧ after.Sound surroundings origin ∧ before.Extends after ∧ after.Extends finished

abbrev Site.Obtains (site : Site) (finished : Body) (action : Compile α) (value : α) : Prop :=
  Compile.Obtains site.outer site.origin site.depth finished action value

theorem asked_asks : Asks (Asked site) where
  pure value := ⟨.pure value, fun _ => quiet_pure value⟩
  bind ofFirst ofNext := ⟨.bind ofFirst.stepped fun value => (ofNext value).stepped,
    fun conservative => .bind (ofFirst.quiet conservative) fun value =>
      (ofNext value).quiet conservative⟩
  throw ordinary := ⟨.throw ordinary, fun _ => quiet_asks.throw ordinary⟩
  body := ⟨.body, fun _ => quiet_get⟩
  lookup closes := ⟨.lookup closes, fun _ => quiet_asks.lookup closes⟩

theorem Asked.parameterSlot (symbol : ParameterSymbol) : Asked site (parameterSlot symbol) :=
  ⟨.parameterSlot symbol, fun _ => quiet_parameterSlot symbol⟩

theorem Asked.localSlot (symbol : LocalSymbol) : Asked site (localSlot symbol) :=
  ⟨.localSlot symbol, fun _ => quiet_localSlot symbol⟩

theorem Asked.leads (asked : Asked site action) (admits : site.Admits before)
    (runs : action before = .ok value after) :
    site.Leads before after ∧ after.values = before.values := by
  obtain ⟨sound, extended, depth, values⟩ :=
    asked.quiet admits.conservative before value after admits.sound runs
  exact ⟨⟨sound, extended, depth⟩, values⟩

theorem Emits.mono (emits : Emits site action Stronger)
    (implies : ∀ value finished code, Stronger value finished code ->
      Weaker value finished code) : Emits site action Weaker := by
  refine ⟨emits.stepped, fun before value after admits runs => ?_⟩
  obtain ⟨leads, code, bytes, fits, result⟩ := emits.run before value after admits runs
  exact ⟨leads, code, bytes, fits, fun finished extending taken =>
    implies value finished code (result finished extending taken)⟩

/-- More slots may be taken when the computation begins. -/
theorem Emits.raise {Result : α -> Body -> Code Mark -> Prop} (emits : Emits site action Result)
    (high : Nat) : Emits { site with low := high } action fun value finished code =>
      site.low ≤ high -> Result value finished code := by
  refine ⟨emits.stepped, fun before value after admits runs => ?_⟩
  obtain ⟨⟨sound, extended, depth⟩, code, bytes, fits, result⟩ := emits.run before value after
    ⟨admits.conservative, admits.sound, admits.depth⟩ runs
  exact ⟨⟨sound, extended, depth⟩, code, bytes, fits, fun finished extending taken le =>
    result finished extending (Nat.le_trans le taken)⟩

theorem Emits.throw (ordinary : error.IsOrdinary) (Result : α -> Body -> Code Mark -> Prop) :
    Emits site (throw error) Result := by
  refine ⟨.throw ordinary, ?_⟩
  intro before value after admits runs
  cases runs

theorem Emits.pure (value : α) : Emits site (pure value) fun result _ (code : Code Mark) =>
    result = value ∧ code = .empty := by
  refine ⟨.pure value, ?_⟩
  intro before result after admits runs
  cases runs
  exact ⟨⟨admits.sound, .refl _, rfl⟩, .empty, (List.append_nil _).symm, trivial,
    fun _ _ _ => ⟨rfl, rfl⟩⟩

theorem Emits.bind (first : Emits site action First) (second : ∀ value, Emits site (next value)
      fun result finished later => ∀ earlier, First value finished earlier ->
        Result result finished (earlier ++ later)) : Emits site (action >>= next) Result := by
  refine ⟨.bind first.stepped fun value => (second value).stepped, ?_⟩
  intro before result after admits runs
  obtain ⟨value, middle, began, ended⟩ := ok_of_bind runs
  obtain ⟨toMiddle, earlier, bytes, fits, known⟩ := first.run before value middle admits began
  obtain ⟨toAfter, later, bytesFurther, fitsFurther, result⟩ :=
    (second value).run middle result after (admits.step toMiddle) ended
  refine ⟨toMiddle.trans toAfter, earlier ++ later, ?_, ⟨fits, fitsFurther⟩,
    fun finished extending taken => ?_⟩
  · rw [bytesFurther, bytes, Code.bytes_append, List.append_assoc]
  · exact result finished extending (taken.step toMiddle) earlier
      (known finished (toAfter.extended.trans extending) taken)

theorem Emits.asking (asked : Asked site action)
    (rest : ∀ value, Emits site (next value) fun result finished code =>
      site.Obtains finished action value -> Result result finished code) :
    Emits site (action >>= next) Result := by
  refine ⟨.bind asked.stepped fun value => (rest value).stepped, ?_⟩
  intro before result after admits runs
  obtain ⟨value, middle, began, ended⟩ := ok_of_bind runs
  obtain ⟨toMiddle, sameValues⟩ := asked.leads admits began
  obtain ⟨toAfter, code, bytes, fits, known⟩ :=
    (rest value).run middle result after (admits.step toMiddle) ended
  refine ⟨toMiddle.trans toAfter, code, sameValues ▸ bytes, fits,
    fun finished extending taken => ?_⟩
  exact known finished extending (taken.step toMiddle) ⟨before, middle, admits.sound, admits.depth, began,
    toMiddle.sound, toMiddle.extended, toAfter.extended.trans extending⟩

theorem Emits.written {action : Emit α} {Result : α -> ConstantPool -> Code Mark -> Prop}
    (writes : action.Writes plain Result) (isPlain : plain) :
    Emits site (emit action) fun value finished code =>
      Result value finished.emitter.pool code := by
  refine ⟨.emit writes.ordinary, ?_⟩
  intro before value after admits runs
  obtain ⟨emitter, emitted, rfl⟩ := emit_ok runs
  obtain ⟨poolSound, extended, _, code, written, fits, known⟩ :=
    writes.run before.emitter value emitter admits.sound.pool emitted
  have bytes : emitter.chunk.values = before.values ++ code.bytes :=
    written ▸ before.emitter.chunk.values_write code.bytes before.emitter.line
  exact ⟨⟨{ admits.sound with pool := poolSound },
    { Body.Extends.refl before with pool := extended }, rfl⟩, code, bytes, fits isPlain,
    fun finished extending _ => known _ extending.pool⟩

/-! ## Jumps -/

private theorem leads_of_samePool (sound : before.Sound site.outer site.origin)
    (same : emitter.pool = before.emitter.pool) : site.Leads before { before with emitter } := by
  refine ⟨{ sound with pool := ?_ }, { Body.Extends.refl before with pool := ?_ }, rfl⟩
  · rw [same]
    exact sound.pool
  · rw [same]
    exact .refl _

theorem emit_jump_ok (admits : site.Admits before)
    (runs : emit (.jump operation) before = .ok label after) :
    site.Leads before after ∧ label.offset = before.values.length + 1
      ∧ after.values = before.values ++ [operation.toByte] ++ Instruction.wordBytes 0xFFFF := by
  obtain ⟨emitter, jumped, rfl⟩ := emit_ok runs
  cases (Emit.jump_eq operation before.emitter).symm.trans jumped
  refine ⟨leads_of_samePool admits.sound rfl, ?_, ?_⟩
  · rw [Body.values, Chunk.length_values]
  · rw [List.append_assoc]
    exact before.emitter.chunk.values_write _ before.emitter.line

/-- A patch turns the placeholder at a label into the number of bytes that
follow it. -/
theorem emit_patch_ok (admits : site.Admits before)
    (split : before.values = front ++ ([high, low] ++ back)) (atFront : label.offset = front.length)
    (runs : emit (.patch label) before = .ok () after) :
    site.Leads before after ∧ back.length < 65536
      ∧ after.values = front ++ (Instruction.wordBytes back.length.toUInt16 ++ back) := by
  obtain ⟨emitter, patched, rfl⟩ := emit_ok runs
  have distance : before.emitter.chunk.size - label.offset - 2 = back.length := by
    rw [← Chunk.length_values, atFront]
    have length := congrArg List.length split
    rw [List.length_append, List.length_append] at length
    change before.values.length - front.length - 2 = back.length
    rw [length]
    simp only [List.length_cons, List.length_nil]
    omega
  rw [Emit.patch_eq, distance] at patched
  split at patched
  · next small =>
    cases patched
    refine ⟨leads_of_samePool admits.sound rfl, small, ?_⟩
    change (before.emitter.chunk.patchWord label.offset back.length.toUInt16).values = _
    rw [atFront, Chunk.values_patchWord split]
  · cases patched

/-- A part that is jumped over when the value on the stack is false. -/
theorem Emits.guarded (onTrue : Emits site whenTrue fun _ => OnTrue) :
    Emits site (do
        let otherwise ← emit (.jump .jumpIfFalse)
        whenTrue
        emit (.patch otherwise))
      fun _ finished code => ∃ part, code = .guarded part ∧ OnTrue finished part := by
  refine ⟨.bind (.emit (.jump _)) fun otherwise => .bind onTrue.stepped fun _ =>
    .emit (.patch otherwise), ?_⟩
  intro before value after admits runs
  obtain ⟨_, jumped, jumpRun, runs⟩ := ok_of_bind runs
  obtain ⟨_, through, trueRun, patchRun⟩ := ok_of_bind runs
  obtain ⟨toJumped, label, jumpedValues⟩ := emit_jump_ok admits jumpRun
  obtain ⟨toThrough, part, throughValues, fits, known⟩ :=
    onTrue.run jumped () through (admits.step toJumped) trueRun
  have split : through.values = (before.values ++ [Opcode.jumpIfFalse.toByte])
      ++ (Instruction.wordBytes 0xFFFF ++ part.bytes) := by
    rw [throughValues, jumpedValues, List.append_assoc _ _ part.bytes]
  have leads := toJumped.trans toThrough
  obtain ⟨toAfter, small, afterValues⟩ :=
    emit_patch_ok (admits.step leads) split (by rw [label, List.length_append]; rfl) patchRun
  rw [Code.length_bytes] at small afterValues
  refine ⟨leads.trans toAfter, .guarded part, ?_, ⟨small, fits⟩, fun finished extending taken => ?_⟩
  · rw [afterValues, List.append_assoc]
    rfl
  · exact ⟨part, rfl, known finished (toAfter.extended.trans extending) (taken.step toJumped)⟩

/-- Two parts of which the value on the stack selects one. -/
theorem Emits.branch (onTrue : Emits site whenTrue fun _ => OnTrue)
    (onFalse : Emits site whenFalse fun _ => OnFalse) :
    Emits site (do
        let otherwise ← emit (.jump .jumpIfFalse)
        whenTrue
        let finish ← emit (.jump .jump)
        emit (.patch otherwise)
        whenFalse
        emit (.patch finish))
      fun _ finished code => ∃ first second,
        code = .branch first second ∧ OnTrue finished first ∧ OnFalse finished second := by
  refine ⟨.bind (.emit (.jump _)) fun otherwise => .bind onTrue.stepped fun _ =>
    .bind (.emit (.jump _)) fun finish => .bind (.emit (.patch otherwise)) fun _ =>
      .bind onFalse.stepped fun _ => .emit (.patch finish), ?_⟩
  intro before value after admits runs
  obtain ⟨_, jumped, jumpRun, runs⟩ := ok_of_bind runs
  obtain ⟨_, through, trueRun, runs⟩ := ok_of_bind runs
  obtain ⟨finish, skipped, skipRun, runs⟩ := ok_of_bind runs
  obtain ⟨_, opened, firstPatch, runs⟩ := ok_of_bind runs
  obtain ⟨_, closing, falseRun, secondPatch⟩ := ok_of_bind runs
  obtain ⟨toJumped, label, jumpedValues⟩ := emit_jump_ok admits jumpRun
  obtain ⟨toThrough, first, throughValues, firstFits, firstKnown⟩ :=
    onTrue.run jumped () through (admits.step toJumped) trueRun
  have throughAdmits := admits.step (toJumped.trans toThrough)
  obtain ⟨toSkipped, skipLabel, skippedValues⟩ := emit_jump_ok throughAdmits skipRun
  let skip := [Opcode.jump.toByte] ++ Instruction.wordBytes 0xFFFF
  have split : skipped.values = (before.values ++ [Opcode.jumpIfFalse.toByte])
      ++ (Instruction.wordBytes 0xFFFF ++ (first.bytes ++ skip)) := by
    rw [skippedValues, throughValues, jumpedValues]
    simp only [List.append_assoc, skip]
  obtain ⟨toOpened, firstSmall, openedValues⟩ := emit_patch_ok (throughAdmits.step toSkipped)
    split (by rw [label, List.length_append]; rfl) firstPatch
  have firstLength : (first.bytes ++ skip).length = first.size + Code.jumpSize := by
    rw [List.length_append, Code.length_bytes]
    rfl
  rw [firstLength] at firstSmall openedValues
  have openedAdmits := throughAdmits.step (toSkipped.trans toOpened)
  obtain ⟨toClosing, second, closingValues, secondFits, secondKnown⟩ :=
    onFalse.run opened () closing openedAdmits falseRun
  let test := (Code.jumpIfFalse (first.size + Code.jumpSize)).bytes
  have splitAgain : closing.values = (before.values ++ test ++ first.bytes ++ [Opcode.jump.toByte])
        ++ (Instruction.wordBytes 0xFFFF ++ second.bytes) := by
    rw [closingValues, openedValues]
    simp only [List.append_assoc, skip, test]
    rfl
  have skipAt : finish.offset
      = (before.values ++ test ++ first.bytes ++ [Opcode.jump.toByte]).length := by
    rw [skipLabel, throughValues, jumpedValues]
    simp only [List.length_append]
    rfl
  obtain ⟨toAfter, secondSmall, afterValues⟩ :=
    emit_patch_ok (openedAdmits.step toClosing) splitAgain skipAt secondPatch
  rw [Code.length_bytes] at secondSmall afterValues
  have toEnd := (toSkipped.trans toOpened).trans (toClosing.trans toAfter)
  refine ⟨(toJumped.trans toThrough).trans toEnd, .branch first second, ?_,
    ⟨firstSmall, secondSmall, firstFits, secondFits⟩, fun finished extending taken => ?_⟩
  · rw [afterValues, Code.bytes_branch]
    simp only [List.append_assoc, test]
    rfl
  · have opened := (toJumped.trans toThrough).trans (toSkipped.trans toOpened)
    exact ⟨first, second, rfl,
      firstKnown finished (toEnd.extended.trans extending) (taken.step toJumped),
      secondKnown finished (toAfter.extended.trans extending) (taken.step opened)⟩

theorem emit_loop_ok (admits : site.Admits before)
    (runs : emit (.loop target) before = .ok () after) :
    site.Leads before after ∧ before.values.length + 1 - target + 2 < 65536
      ∧ after.values = before.values
        ++ (Code.jumpBack (before.values.length + 1 - target + 2)).bytes := by
  obtain ⟨emitter, looped, rfl⟩ := emit_ok runs
  rw [Body.values, Chunk.length_values]
  rw [Emit.loop_eq] at looped
  split at looped
  · next small =>
    cases looped
    exact ⟨leads_of_samePool admits.sound rfl, small,
      before.emitter.chunk.values_write _ before.emitter.line⟩
  · cases looped

/-- A body that is repeated as long as its condition leaves a true value. -/
theorem Emits.loop (onCondition : Emits site condition fun _ => OnCondition)
    (onBody : Emits site body fun _ => OnBody) :
    Emits site (do
        let start ← emit .offset
        condition
        let leave ← emit (.jump .jumpIfFalse)
        body
        emit (.loop start)
        emit (.patch leave))
      fun _ finished code => ∃ first second,
        code = .loop first second ∧ OnCondition finished first ∧ OnBody finished second := by
  refine ⟨.bind (.emit .offset) fun start => .bind onCondition.stepped fun _ =>
    .bind (.emit (.jump _)) fun leave => .bind onBody.stepped fun _ =>
      .bind (.emit (.loop start)) fun _ => .emit (.patch leave), ?_⟩
  intro before value after admits runs
  obtain ⟨_, _, measureRun, runs⟩ := ok_of_bind runs
  obtain ⟨emitter, measuring, rfl⟩ := emit_ok measureRun
  cases measuring
  obtain ⟨_, tested, conditionRun, runs⟩ := ok_of_bind runs
  obtain ⟨leave, jumped, jumpRun, runs⟩ := ok_of_bind runs
  obtain ⟨_, through, bodyRun, runs⟩ := ok_of_bind runs
  obtain ⟨_, returned, loopRun, patchRun⟩ := ok_of_bind runs
  obtain ⟨toTested, first, testedValues, firstFits, firstKnown⟩ :=
    onCondition.run before () tested admits conditionRun
  have testedAdmits := admits.step toTested
  obtain ⟨toJumped, label, jumpedValues⟩ := emit_jump_ok testedAdmits jumpRun
  obtain ⟨toThrough, second, throughValues, secondFits, secondKnown⟩ :=
    onBody.run jumped () through (testedAdmits.step toJumped) bodyRun
  have throughAdmits := testedAdmits.step (toJumped.trans toThrough)
  obtain ⟨toReturned, small, returnedValues⟩ := emit_loop_ok throughAdmits loopRun
  have distance : through.values.length + 1 - before.emitter.chunk.size + 2
      = first.size + Code.jumpSize + second.size + Code.jumpSize := by
    rw [← Chunk.length_values, throughValues, jumpedValues, testedValues]
    change _ - before.values.length + 2 = _
    simp only [List.length_append, Code.length_bytes, Code.jumpSize, Instruction.wordBytes,
      List.length_cons, List.length_nil]
    omega
  rw [distance] at small returnedValues
  let back := (Code.jumpBack (first.size + Code.jumpSize + second.size + Code.jumpSize)).bytes
  have split : returned.values = (before.values ++ first.bytes ++ [Opcode.jumpIfFalse.toByte])
        ++ (Instruction.wordBytes 0xFFFF ++ (second.bytes ++ back)) := by
    rw [returnedValues, throughValues, jumpedValues, testedValues]
    simp only [List.append_assoc, back]
  obtain ⟨toAfter, _, afterValues⟩ := emit_patch_ok (throughAdmits.step toReturned) split
    (by simp only [label, testedValues, List.length_append, List.length_singleton]) patchRun
  have behind : (second.bytes ++ back).length = second.size + Code.jumpSize := by
    rw [List.length_append, Code.length_bytes]
    rfl
  rw [behind] at afterValues
  have toEnd := toReturned.trans toAfter
  have fromTest := (toJumped.trans toThrough).trans toEnd
  refine ⟨toTested.trans fromTest, .loop first second, ?_, ⟨small, firstFits, secondFits⟩,
    fun finished extending taken => ?_⟩
  · rw [afterValues, Code.bytes_loop]
    simp only [List.append_assoc, back]
    rfl
  · exact ⟨first, second, rfl, firstKnown finished (fromTest.extended.trans extending) taken,
      secondKnown finished (toEnd.extended.trans extending)
        (taken.step (toTested.trans toJumped))⟩

end Compile
end OpMachine
