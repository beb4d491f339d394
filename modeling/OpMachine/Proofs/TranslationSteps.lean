import OpMachine.Proofs.Translation

namespace OpMachine
namespace Compile

/-!
# Single steps of the compiler

Every step that writes an instruction or two is shown to emit the code that the
translation relation names for it.  The clauses of the compiler are assembled
from these steps in the next module.
-/

variable {α β : Type} {outer : Surroundings} {origin : Catalog} {depth low : Nat} {site : Site}
  {finished : Body} {symbol : LocalSymbol} {slot : UInt16} {action : Compile α}
  {Result : α -> Body -> MarkedCode -> Prop} {next : UInt16 -> Compile β}

/-! ## Answers -/

theorem Obtains.parameterSlot {symbol : ParameterSymbol} {slot : UInt8}
    (obtained : Obtains outer origin depth finished (parameterSlot symbol) slot) :
    finished.slots.parameterSlot symbol = .ok slot := by
  obtain ⟨_, _, _, _, runs, _, _, extending⟩ := obtained.run
  obtain ⟨found, rfl⟩ := parameterSlot_ok runs
  rw [← found]
  unfold SlotTable.parameterSlot
  rw [extending.owner, extending.hasReceiver]

theorem Obtains.localSlot (obtained : Obtains outer origin depth finished (localSlot symbol) slot) :
    finished.slots.locals[symbol.id]? = some slot := by
  obtain ⟨_, _, _, _, runs, _, _, extending⟩ := obtained.run
  obtain ⟨found, rfl⟩ := localSlot_ok runs
  exact extending.locals symbol.id slot found

theorem Obtains.declareLocal
    (obtained : Obtains outer origin depth finished (declareLocal symbol) slot) :
    finished.slots.locals[symbol.id]? = some slot := by
  obtain ⟨_, _, _, _, runs, _, _, extending⟩ := obtained.run
  apply extending.locals symbol.id slot
  rcases declareLocal_ok runs with ⟨found, rfl⟩ | ⟨_, _, _, rfl⟩
  · exact found
  · exact Std.HashMap.getElem?_insert_self

theorem Obtains.argumentCount
    (obtained : Obtains outer origin depth finished (argumentCount count) operand) :
    count < 256 ∧ operand = count.toUInt8 := by
  obtain ⟨_, _, _, _, runs, _⟩ := obtained.run
  unfold Compile.argumentCount at runs
  by_cases few : count < 256
  · rw [if_pos few] at runs
    cases runs
    exact ⟨few, rfl⟩
  · rw [if_neg few] at runs
    cases runs

theorem Obtains.elementRank
    (obtained : Obtains outer origin depth finished (elementRank indices) rank) :
    0 < indices.length ∧ indices.length < 256 ∧ rank = indices.length.toUInt8 := by
  obtain ⟨_, _, _, _, runs, _⟩ := obtained.run
  unfold Compile.elementRank at runs
  by_cases few : 0 < indices.length ∧ indices.length < 256
  · rw [if_pos few] at runs
    cases runs
    exact ⟨few.1, few.2, rfl⟩
  · rw [if_neg few] at runs
    cases runs

theorem Obtains.requireImplicitReceiver
    (obtained : Obtains outer origin depth finished requireImplicitReceiver ()) :
    depth ≠ 0 := by
  obtain ⟨_, _, _, atDepth, runs, _⟩ := obtained.run
  intro outside
  obtain ⟨_, _, got, runs⟩ := ok_of_bind runs
  cases got
  rw [if_pos (atDepth.trans outside)] at runs
  cases runs

/-! ## Instructions -/

theorem Emits.marked (mark : CodeMark)
    (emits : Emits site action fun value finished part =>
      Result value finished (.marked mark part)) :
    Emits site action Result := by
  refine ⟨emits.stepped, fun before value after admits runs => ?_⟩
  obtain ⟨leads, part, bytes, fits, known⟩ := emits.run before value after admits runs
  exact ⟨leads, .marked mark part, bytes, fits, known⟩

theorem Emits.ite [Decidable condition] (whenTrue : condition -> Emits site first Result)
    (whenFalse : ¬ condition -> Emits site second Result) :
    Emits site (if condition then first else second) Result := by
  split
  · rename_i holds
    exact whenTrue holds
  · rename_i holds
    exact whenFalse holds

/-- Nothing is emitted after a failure. -/
theorem Emits.unless [Decidable condition] (ordinary : error.IsOrdinary)
    (rest : Emits site action Result) :
    Emits site (if condition then (MonadExcept.throw error : Compile PUnit) >>= fun _ => action
        else action)
      fun value finished code => ¬ condition ∧ Result value finished code := by
  refine .ite (fun _ => ⟨.bind (.throw ordinary) fun _ => rest.stepped, ?_⟩) fun holds =>
    rest.mono fun _ _ _ known => ⟨holds, known⟩
  intro before value after admits runs
  cases runs

/-- Code written while there is one more object under construction. -/
theorem Emits.withImplicitReceiver {action : Compile Unit}
    {Result : Unit -> Body -> MarkedCode -> Prop}
    (emits : Emits { site with depth := site.depth + 1 } action Result) :
    Emits site (withImplicitReceiver action) Result := by
  refine ⟨.bind (.implicitReceivers (· + 1)) fun _ => .bind emits.stepped fun _ =>
    .implicitReceivers (· - 1), ?_⟩
  intro before value after admits runs
  obtain ⟨_, _, entering, runs⟩ := ok_of_bind runs
  obtain ⟨_, leaving, inside, left⟩ := ok_of_bind runs
  cases entering
  cases left
  obtain ⟨⟨sound, extended, deeper⟩, code, bytes, fits, known⟩ :=
    emits.run { before with implicitReceivers := before.implicitReceivers + 1 } () leaving
      ⟨admits.conservative, { admits.sound with }, congrArg (· + 1) admits.depth⟩ inside
  exact ⟨⟨{ sound with }, { extended with }, congrArg (· - 1) deeper⟩, code, bytes, fits,
    fun finished extending => known finished { extending with }⟩

theorem Emits.answering (emits : Emits site action First) (answer : α -> β) :
    Emits site (action >>= fun value => Pure.pure (answer value))
      fun result finished code => ∃ value, result = answer value
        ∧ First value finished code := by
  refine ⟨.bind emits.stepped fun _ => .pure _, ?_⟩
  intro before result after admits runs
  obtain ⟨value, _, began, ended⟩ := ok_of_bind runs
  cases ended
  obtain ⟨leads, code, bytes, fits, known⟩ := emits.run before value after admits began
  exact ⟨leads, code, bytes, fits,
    fun finished extending taken => ⟨value, rfl, known finished extending taken⟩⟩

theorem Emits.afterNothing (emits : Emits site action fun value finished later =>
      Result value finished (.empty ++ later)) :
    Emits site action Result := by
  refine ⟨emits.stepped, fun before value after admits runs => ?_⟩
  obtain ⟨leads, code, bytes, fits, known⟩ := emits.run before value after admits runs
  exact ⟨leads, (.empty : MarkedCode) ++ code, bytes, ⟨trivial, fits⟩, known⟩

theorem Emits.plain (opcode : Opcode) (complete : opcode.operandSize = 0)
    (plain : opcode.isJump = false) :
    Emits site (emit (.opcode opcode)) fun _ _ code =>
      code = MarkedCode.plain opcode complete :=
  .written (.opcode opcode complete) plain

theorem Emits.getLocal (slot : UInt16) :
    Emits site (emit (.getLocal slot)) fun _ _ code =>
      code = MarkedCode.getLocal slot :=
  .written (.withWord .getLocal slot rfl) rfl

theorem Emits.setLocal (slot : UInt16) :
    Emits site (emit (.setLocal slot)) fun _ _ code =>
      code = MarkedCode.setLocal slot :=
  .written (.withWord .setLocal slot rfl) rfl

theorem Emits.sizeOperand (size : Nat) (shape : String) :
    Emits site (sizeOperand size shape) fun _ finished code =>
      Emit.LoadsSize finished.emitter.pool size code := by
  refine .ite (fun small => ?_) fun _ => .throw (.unsupportedShape _) _
  exact .mono (.written (.constant _) trivial) fun _ finished code loads => ⟨small, loads⟩

theorem Emits.literal (info : Info) :
    Emits site (literal info) fun _ finished code =>
      ∃ value, info.literal = some value ∧ Literal.Loads finished.emitter.pool value code := by
  unfold Compile.literal
  split
  · rename_i isLiteral
    exact .mono (.plain .pushNull rfl rfl) fun _ _ _ code => ⟨_, isLiteral, code⟩
  · rename_i value isLiteral
    refine .mono (.plain (.ofBool value) (Opcode.operandSize_ofBool value) ?_) ?_
    · cases value <;> rfl
    · exact fun _ _ _ code => ⟨_, isLiteral, code⟩
  -- The others stand in the pool, but for those that cannot be loaded.
  all_goals first
    | exact .throw (.unsupportedShape _) _
    | rename_i isLiteral
      exact .mono (.written (.constant _) trivial) fun _ _ _ code => ⟨_, isLiteral, code⟩

theorem Emits.opcodes (list : List Opcode)
    (plain : ∀ opcode, opcode ∈ list -> opcode.operandSize = 0 ∧ opcode.isJump = false) :
    Emits site (opcodes list) fun _ _ code => Operates list code := by
  induction list with
  | nil => exact .mono (.pure ()) fun _ _ _ empty => empty.2 ▸ .none
  | cons head _ ih =>
    obtain ⟨complete, noJump⟩ := plain head (.head _)
    refine .bind (.plain head complete noJump) fun _ => ?_
    refine (ih fun opcode member =>
      plain opcode (.tail _ member)).mono ?_
    intro _ _ later operates earlier isHead
    exact isHead ▸ .next head complete noJump operates

theorem BinaryOperator.plain_opcodes (operator : BinaryOperator) :
    ∀ opcode, opcode ∈ operator.opcodes -> opcode.operandSize = 0 ∧ opcode.isJump = false := by
  cases operator <;> decide

theorem Emits.convert (source target : TypeHash) :
    Emits site (convert source target) fun _ _ code =>
      Converts source target code := by
  unfold Compile.convert
  split
  · rename_i equal
    exact .mono (.pure ()) fun _ _ _ empty => empty.2 ▸ .same equal
  · rename_i equal
    split
    · rename_i kind sourceKind toKind fromKind
      refine .mono (.written (.withByte .convert kind.toByte rfl) rfl) ?_
      exact fun _ _ _ code => code ▸ .number kind sourceKind equal toKind fromKind
    · rename_i notBoth
      have missing : NumericKind.ofType? target = none ∨ NumericKind.ofType? source = none := by
        cases toKind : NumericKind.ofType? target with
        | none => exact .inl rfl
        | some kind =>
          cases fromKind : NumericKind.ofType? source with
          | none => exact .inr rfl
          | some sourceKind => exact (notBoth kind sourceKind toKind fromKind).elim
      refine .asking asked_asks.catalog fun catalog =>
        .ite (fun _ => ?_) fun _ => .throw (.unsupportedShape _) _
      refine .mono (.pure ()) ?_
      rintro _ _ _ ⟨_, rfl⟩ _
      exact .reference equal missing

theorem MemberAccess.isJump_opcodes (access : MemberAccess) :
    access.loadOpcode.isJump = false ∧ access.storeOpcode.isJump = false := by
  cases access with
  | property _ isVirtual => cases isVirtual <;> exact ⟨rfl, rfl⟩
  | _ => exact ⟨rfl, rfl⟩

variable (place : StorePlace)

theorem Emits.load : Emits site (emit place.load) fun _ finished code =>
      place.LoadCode finished.emitter.pool code := by
  cases place with
  | argument slot => exact .written (.withByte .getArg slot rfl) rfl
  | localVariable slot => exact .getLocal slot
  | member access =>
    exact .written (.withHash access.loadOpcode access.hash
      access.operandSize_loadOpcode) (MemberAccess.isJump_opcodes access).1
  | element rank => exact .written (.withByte .loadElement rank rfl) rfl

theorem Emits.store : Emits site (emit place.store) fun _ finished code =>
      place.StoreCode finished.emitter.pool code := by
  cases place with
  | argument slot => exact .written (.withByte .setArg slot rfl) rfl
  | localVariable slot => exact .setLocal slot
  | member access =>
    exact .written (.withHash access.storeOpcode access.hash
      access.operandSize_storeOpcode) (MemberAccess.isJump_opcodes access).2
  | element rank => exact .written (.withByte .storeElement rank rfl) rfl

theorem Emits.storeValue (use : ValueUse) : Emits site (storeValue place use) fun _ finished code =>
      ∃ store, place.StoreCode finished.emitter.pool store
        ∧ code = MarkedCode.keeping use store := by
  cases use with
  | kept =>
    refine .bind (.plain .dup rfl rfl) fun _ => .mono (.store place) ?_
    intro _ finished store stores earlier isDup
    exact ⟨store, stores, isDup ▸ rfl⟩
  | discarded =>
    exact .mono (.store place) fun _ _ store stores => ⟨store, stores, rfl⟩

/-- A fresh slot is taken by no local, also not by one that is declared later. -/
theorem temporary_of_freshSlot (admits : site.Admits before) (taken : site.Taken before)
    (runs : freshSlot before = .ok slot after) (extending : after.Extends finished) :
    finished.Temporary site.low slot := by
  obtain ⟨_, isNew, rfl⟩ := freshSlot_ok runs
  refine ⟨isNew ▸ taken, isNew ▸ extending.localCount, fun id found => ?_⟩
  rcases extending.declared id slot found with earlier | later
  · exact absurd (admits.sound.slots id slot earlier) (isNew ▸ Nat.lt_irrefl _)
  · exact absurd later (isNew ▸ Nat.not_succ_le_self _)

variable {Result : β -> Body -> MarkedCode -> Prop}

theorem Emits.bind_freshSlot
    (rest : ∀ slot : UInt16, Emits { site with low := slot.toNat + 1 } (next slot)
      fun result finished code => finished.Temporary site.low slot ->
        Result result finished code) :
    Emits site (freshSlot >>= next) Result := by
  refine ⟨.bind .freshSlot fun slot => (rest slot).stepped, ?_⟩
  intro before result after admits runs
  obtain ⟨slot, middle, began, ended⟩ := ok_of_bind runs
  obtain ⟨toMiddle, sameValues⟩ :=
    Asked.leads ⟨.freshSlot, fun _ => quiet_freshSlot⟩ admits began
  have middleAdmits := admits.step toMiddle
  obtain ⟨_, isNew, isMiddle⟩ := freshSlot_ok began
  have free : slot.toNat + 1 ≤ middle.slots.localCount :=
    Nat.le_of_eq (by rw [isMiddle, isNew])
  obtain ⟨⟨sound, extended, depth⟩, code, bytes, fits, known⟩ := (rest slot).run middle result after
    ⟨admits.conservative, middleAdmits.sound, middleAdmits.depth⟩ ended
  refine ⟨toMiddle.trans ⟨sound, extended, depth⟩, code, sameValues ▸ bytes, fits,
    fun finished extending taken => ?_⟩
  exact known finished extending free
    (temporary_of_freshSlot admits taken began (extended.trans extending))

theorem Emits.storeAbove (use : ValueUse) : Emits site (storeAbove place use) fun _ finished code =>
      ∃ store, place.StoreCode finished.emitter.pool store
        ∧ StoresAbove finished site.low store use code := by
  cases use with
  | discarded => exact .mono (.store place) fun _ _ store stores => ⟨store, stores, .discarded⟩
  | kept =>
    refine .bind_freshSlot fun slot => ?_
    refine .bind (.plain .dup rfl rfl) fun _ => .bind (.setLocal slot) fun _ =>
      .bind (.store place) fun _ => .mono (.getLocal slot) ?_
    rintro _ finished _ rfl store stores _ rfl _ rfl temporary
    exact ⟨store, stores, .kept slot temporary⟩

/-- Code after a spill takes its own temporaries above the one that was filled. -/
theorem Emits.bind_spill
    (rest : ∀ slot : UInt16, Emits { site with low := slot.toNat + 1 } (next slot)
      fun result finished code => finished.Temporary site.low slot ->
        Result result finished (MarkedCode.setLocal slot ++ code)) :
    Emits site (spill >>= next) Result := by
  unfold spill
  rw [bind_assoc]
  refine .bind_freshSlot fun slot => ?_
  rw [bind_assoc]
  refine .bind (.setLocal slot) fun _ => (rest slot).mono ?_
  rintro _ finished code known _ rfl temporary
  exact known temporary

theorem Emits.reload (slots : List UInt16) :
    Emits site (reload slots) fun _ _ code =>
      code = MarkedCode.reload slots := by
  induction slots with
  | nil => exact .mono (.pure ()) fun _ _ _ empty => empty.2
  | cons slot _ ih =>
    refine .bind (.getLocal slot) fun _ => ih.mono ?_
    rintro _ _ _ rfl _ rfl
    rfl

theorem Emits.call (target : CallTarget) (count : UInt8) :
    Emits site (call target count) fun _ finished code =>
      Calls finished.emitter.pool target count code := by
  unfold Compile.call
  cases target with
  | self =>
    exact (written (Emit.Writes.withByte .callSelf count rfl) rfl).mono
      fun _ _ _ code => code ▸ .self count
  | declared callee =>
    exact (written (Emit.Writes.callUnit callee count) trivial).mono
      fun _ _ _ code => code ▸ .declared callee count
  | host method =>
    cases native : method.body with simp only [native]
    | delegateInvoke =>
      exact (written (Emit.Writes.withByte .invokeDelegate count rfl) rfl).mono
        fun _ _ _ code => code ▸ .delegate method count native
    | host function =>
      have noJump : (hostOpcode method).isJump = false := by
        unfold hostOpcode
        split
        · rfl
        · split
          · rfl
          · rfl
      refine (written (Emit.Writes.call (hostOpcode method) method.hash count
        (operandSize_hostOpcode method)) noJump).mono ?_
      rintro _ _ _ ⟨index, present, rfl⟩
      exact .host method function count index native present

theorem Emits.delegate (target : Operation) (knows : target.Knows site.Known) :
    Emits site (delegate site.outer.session target)
      fun _ finished code => ∃ symbol index,
        target.function? = some symbol
          ∧ site.Obtains finished (lambdaIndex site.outer.session symbol.id) index
          ∧ code = (.single (.withByte .loadDelegate index rfl) : MarkedCode) := by
  fun_induction Compile.delegate site.outer.session target with
  | case1 _ symbol body =>
    have known : site.Known symbol.id := by
      refine knows ⟨symbol, body⟩ ?_
      rw [Operation.functions_eq]
      exact List.mem_append_right _ (.head _)
    refine .asking ⟨.lambdaIndex known, fun _ => quiet_lambdaIndex symbol.id⟩ fun index => ?_
    refine .mono (.written (.withByte .loadDelegate index rfl) rfl) ?_
    exact fun _ _ _ code obtained => ⟨symbol, index, rfl, obtained, code⟩
  | case2 _ _ ih => exact ih knows.child
  | case3 => exact .throw (.unsupportedShape _) _

end Compile
end OpMachine
