import OpMachine.Proofs.FoundMembers

namespace OpMachine

/-!
# The instructions of translated code

Every instruction of translated code comes from some rule of the translation, and
the rule knows what its operands stand for: a constant or a type of the pool, a
slot of the frame, a member that was found, a method that is called.  The list is
`Compile.Serves`, and one induction on the translation shows that it is complete.
What is asked of all instructions of a body is then asked of those on the list.
-/

/-! ## Properties of whole trees -/

/-- A property of an operation and of everything below it. -/
inductive Operation.Throughout (Property : Operation -> Prop) : Operation -> Prop
  | intro {operation : Operation} (here : Property operation)
      (children : ∀ child, child ∈ operation.children -> Throughout Property child) :
      Throughout Property operation

variable {operation : Operation}

theorem Operation.Throughout.here (throughout : operation.Throughout Property) :
    Property operation := by
  cases throughout with
  | intro here => exact here

namespace Compile.Task

def operations : Task -> List Operation
  | .value _ operation | .shape operation | .statement _ operation | .body _ operation =>
    [operation]
  | .values operations | .items _ operations | .entries operations | .spills operations _
  | .statements _ operations => operations
  | .parts _ pieces => pieces.flatMap InterpolationPart.operations
  | .alignments arguments => arguments.flatMap HoleArgument.operations
  | .store _ target source | .update _ _ target source => [target, source]

def Throughout (Property : Operation -> Prop) (task : Task) : Prop :=
  ∀ operation, operation ∈ task.operations -> operation.Throughout Property

variable {Property : Operation -> Prop} {task part : Task}

/-- A property throughout a task that is asked for on a condition. -/
def ThroughoutIf (condition : Bool) (Property : Operation -> Prop) (task : Task) : Prop :=
  condition = true -> task.Throughout Property

theorem ThroughoutIf.narrow (throughout : task.ThroughoutIf condition Property)
    (within : ∀ operation, operation ∈ part.operations -> operation ∈ task.operations
      ∨ ∃ parent, parent ∈ task.operations ∧ operation ∈ parent.children := by
        simp +contextual [OpMachine.Compile.Task.operations, OpMachine.Operation.children,
          OpMachine.InterpolationPart.operations, OpMachine.HoleArgument.operations]) :
    part.ThroughoutIf condition Property := by
  intro holds operation member
  rcases within operation member with same | ⟨parent, inside, below⟩
  · exact throughout holds operation same
  · cases throughout holds parent inside with
    | intro _ children => exact children operation below

end Compile.Task

theorem Instruction.eq_of_withWord {opcode other : Opcode} {first second : UInt16}
    {complete : opcode.operandSize = 2} {otherComplete : other.operandSize = 2}
    (same : withWord opcode first complete = withWord other second otherComplete) :
    first = second := by
  obtain ⟨high, later⟩ := List.cons.inj (congrArg operands same)
  rw [← Chunk.joinBytes_highByte_lowByte first, high, List.head_eq_of_cons_eq later,
    Chunk.joinBytes_highByte_lowByte]

theorem Body.Temporary.lower {finished : Body} (temporary : finished.Temporary low slot)
    (le : floor ≤ low) : finished.Temporary floor slot :=
  { temporary with above := Nat.le_trans le temporary.above }

namespace Compile

section

variable (origin : Catalog) (finished : Body) (strict : Bool) (Known : Operation -> Prop)
  (floor : Nat)

/-- The instructions of translated code.  Its temporaries have slots from the
floor on, and of the parameters it is known, if that is asked for, what is known
of all operations. -/
inductive Serves : Instruction -> Prop
  | plain {opcode : Opcode} {complete : opcode.operandSize = 0} : Serves (.plain opcode complete)
  | jump {instruction : Instruction} (isJump : instruction.opcode.isJump = true) :
      Serves instruction
  | argument {opcode : Opcode} {complete : opcode.operandSize = 1} {info : Info}
      {symbol : ParameterSymbol} {slot : UInt8} (accesses : opcode = .getArg ∨ opcode = .setArg)
      (found : finished.slots.parameterSlot symbol = .ok slot)
      (known : strict = true -> Known (.parameter info symbol)) :
      Serves (.withByte opcode slot complete)
  | declared {opcode : Opcode} {complete : opcode.operandSize = 2} {id : SymbolId} {slot : UInt16}
      (accesses : opcode = .getLocal ∨ opcode = .setLocal)
      (found : finished.slots.locals[id]? = some slot) : Serves (.withWord opcode slot complete)
  | temporary {opcode : Opcode} {complete : opcode.operandSize = 2} {slot : UInt16}
      (accesses : opcode = .getLocal ∨ opcode = .setLocal)
      (isTemporary : finished.Temporary floor slot) : Serves (.withWord opcode slot complete)
  | element {opcode : Opcode} {complete : opcode.operandSize = 1} {rank : UInt8}
      (accesses : opcode = .loadElement ∨ opcode = .storeElement) :
      Serves (.withByte opcode rank complete)
  | convert {kind : NumericKind} : Serves (.withByte .convert kind.toByte rfl)
  | constant {constant : Constant} {index : UInt8}
      (present : finished.emitter.pool.Has index.toNat constant)
      (isValue : constant.value?.isSome = true) : Serves (.withByte .constant index rfl)
  | constantWide {constant : Constant} {index : UInt16}
      (present : finished.emitter.pool.Has index.toNat constant)
      (isValue : constant.value?.isSome = true) : Serves (.withWord .constantWide index rfl)
  | pushDefault {type : TypeHash} {index : UInt16}
      (present : finished.emitter.pool.Has index.toNat (.hash type)) :
      Serves (.withWord .pushDefault index rfl)
  | newArray {element : TypeHash} {index : UInt16} {rank : UInt8}
      (present : finished.emitter.pool.Has index.toNat (.hash element)) :
      Serves (.withCount .newArray index rank rfl)
  | new {type hash : TypeHash} {typeIndex constructorIndex : UInt16} {count : UInt8}
      (isType : finished.emitter.pool.Has typeIndex.toNat (.hash type))
      (creates : finished.emitter.pool.Has constructorIndex.toNat (.hash hash))
      (known : origin.Coherent -> ∃ entry : MethodEntry,
        entry.hash = hash ∧ entry.IsKnown finished.workspace.catalog) :
      Serves (.new typeIndex constructorIndex count)
  | access {access : MemberAccess} {opcode : Opcode} {complete : opcode.operandSize = 2}
      {index : UInt16} (accesses : opcode = access.loadOpcode ∨ opcode = access.storeOpcode)
      (present : finished.emitter.pool.Has index.toNat (.hash access.hash))
      (known : origin.Coherent -> access.IsKnown finished.workspace.catalog) :
      Serves (.withWord opcode index complete)
  | callHost {entry : MethodEntry} {opcode : Opcode} {complete : opcode.operandSize = 3}
      {index : UInt16} {count : UInt8}
      (calls : opcode = .callStatic ∨ opcode = .callVirtual ∨ opcode = .callMethod)
      (present : finished.emitter.pool.Has index.toNat (.hash entry.hash))
      (known : origin.Coherent -> entry.IsKnown finished.workspace.catalog) :
      Serves (.withCount opcode index count complete)
  | callSelf {count : UInt8} : Serves (.withByte .callSelf count rfl)
  | callUnit {callee count : UInt8} {called : CompiledMethod}
      (isCalled : finished.callees[callee.toNat]? = some called) : Serves (.callUnit callee count)
  | invokeDelegate {count : UInt8} : Serves (.withByte .invokeDelegate count rfl)
  | loadDelegate {index : UInt8} (inside : index.toNat < finished.lambdas.length) :
      Serves (.withByte .loadDelegate index rfl)

end

namespace Serves

variable {outer : Surroundings} {origin : Catalog} {finished : Body} {strict : Bool}
  {Known : Operation -> Prop} {floor depth low : Nat} {code : MarkedCode}

theorem single (serves : Serves origin finished strict Known floor instruction) :
    (Code.single instruction : MarkedCode).Every
      (Serves origin finished strict Known floor) := Code.every_single serves

theorem loads {constant : Constant} (loads : Emit.Loads finished.emitter.pool constant code)
    (isValue : constant.value?.isSome = true) :
    code.Every (Serves origin finished strict Known floor) := by
  rcases loads with ⟨index, present, rfl⟩ | ⟨index, present, rfl⟩
  · exact single (.constant present isValue)
  · exact single (.constantWide present isValue)

theorem literal {literal : Literal} (isLoaded : literal.Loads finished.emitter.pool code) :
    code.Every (Serves origin finished strict Known floor) := by
  cases literal with
  | null | bool => exact isLoaded ▸ single .plain
  | int | int64 | uint | uint64 | float | double | string => exact loads isLoaded rfl
  | char | decimal => exact isLoaded.elim

variable {slots : List UInt16}

theorem reload (temporaries : ∀ slot, slot ∈ slots -> finished.Temporary floor slot) :
    (MarkedCode.reload slots).Every (Serves origin finished strict Known floor) := by
  induction slots with
  | nil => exact Code.every_empty
  | cons slot _ ih =>
    exact .append (single (.temporary (.inl rfl) (temporaries slot (.head _))))
      (ih fun other member => temporaries other (.tail _ member))

theorem keeping (stores : store.Every (Serves origin finished strict Known floor)) :
    (MarkedCode.keeping use store).Every (Serves origin finished strict Known floor) := by
  cases use with
  | kept => exact .append (single .plain) stores
  | discarded => exact stores

theorem operates {opcodes : List Opcode} (operates : Operates opcodes code) :
    code.Every (Serves origin finished strict Known floor) := by
  induction operates with
  | none => exact Code.every_empty
  | next _ _ _ _ ih => exact .append (single .plain) ih

theorem converts {source target : TypeHash} (converts : Converts source target code) :
    code.Every (Serves origin finished strict Known floor) := by
  cases converts with
  | same | reference => exact Code.every_empty
  | number => exact single .convert

theorem calls (found : Obtains outer origin depth finished
      (callTarget outer hasReceiver method arguments) target)
    (calls : Calls finished.emitter.pool target count code) :
    code.Every (Serves origin finished strict Known floor) := by
  cases calls with
  | self => exact single .callSelf
  | declared =>
    obtain ⟨_, isCalled⟩ := found.declaredTarget
    exact single (.callUnit isCalled)
  | delegate => exact single .invokeDelegate
  | host _ _ _ _ _ present =>
    refine single (.callHost ?_ present (Obtains.hostTarget · found))
    unfold hostOpcode
    split
    · exact .inl rfl
    · split
      · exact .inr (.inl rfl)
      · exact .inr (.inr rfl)

variable {access : MemberAccess}

theorem load (loads : (StorePlace.member access).LoadCode finished.emitter.pool code)
    (known : origin.Coherent -> access.IsKnown finished.workspace.catalog) :
    code.Every (Serves origin finished strict Known floor) := by
  obtain ⟨_, present, rfl⟩ := loads
  exact single (.access (.inl rfl) present known)

theorem store (stores : (StorePlace.member access).StoreCode finished.emitter.pool code)
    (known : origin.Coherent -> access.IsKnown finished.workspace.catalog) :
    code.Every (Serves origin finished strict Known floor) := by
  obtain ⟨_, present, rfl⟩ := stores
  exact single (.access (.inr rfl) present known)

theorem storesAbove {store : MarkedCode} (above : StoresAbove finished low store use code)
    (lower : floor ≤ low) (stores : store.Every (Serves origin finished strict Known floor)) :
    code.Every (Serves origin finished strict Known floor) := by
  cases above with
  | discarded => exact stores
  | kept _ isTemporary =>
    have isTemporary := isTemporary.lower lower
    exact .append (single .plain) (.append (single (.temporary (.inr rfl) isTemporary))
      (.append stores (single (.temporary (.inl rfl) isTemporary))))

theorem simple (found : SimplePlace outer origin finished depth target place)
    (known : strict = true -> Known target) :
    (place.LoadCode finished.emitter.pool code ->
        code.Every (Serves origin finished strict Known floor))
      ∧ (place.StoreCode finished.emitter.pool code ->
        code.Every (Serves origin finished strict Known floor)) := by
  cases found with
  | parameter found =>
    exact ⟨fun loads => loads ▸ single (.argument (.inl rfl) found known),
      fun stores => stores ▸ single (.argument (.inr rfl) found known)⟩
  | localVariable found =>
    exact ⟨fun loads => loads ▸ single (.declared (.inl rfl) found),
      fun stores => stores ▸ single (.declared (.inr rfl) found)⟩
  | staticMember found =>
    have known (coherent : origin.Coherent) := Obtains.knownMember coherent found
    exact ⟨fun loads => load loads known, fun stores => store stores known⟩

variable {instruction : Instruction}

theorem setsLocal {slot : UInt16}
    (serves : Serves origin finished strict Known floor (.withWord .setLocal slot rfl)) :
    (∃ id : SymbolId, finished.slots.locals[id]? = some slot)
      ∨ finished.Temporary floor slot := by
  generalize isStore : Instruction.withWord .setLocal slot rfl = instruction at serves
  have named := congrArg Instruction.opcode isStore
  cases serves with
  | declared _ found =>
    cases Instruction.eq_of_withWord isStore
    exact .inl ⟨_, found⟩
  | temporary _ isTemporary =>
    cases Instruction.eq_of_withWord isStore
    exact .inr isTemporary
  | @plain opcode complete | @argument opcode complete | @element opcode complete
  | @callHost _ opcode complete => cases (show _ = opcode from named); cases complete
  | jump isJump => rw [← named] at isJump; cases isJump
  | @access access _ _ _ accesses =>
    cases access with
    | property _ isVirtual => cases isVirtual <;> rcases accesses with rfl | rfl <;> cases named
    | field | staticProperty => rcases accesses with rfl | rfl <;> cases named
  | _ => cases named

end Serves

section

variable {outer : Surroundings} {origin : Catalog} {finished : Body} {strict : Bool}
  {Known : Operation -> Prop} {floor depth low : Nat} {task : Task} {code : MarkedCode}

theorem temporary_of_spills {operations : List Operation}
    (translates : Translates outer origin finished depth low (.spills operations slots) code)
    (le : floor ≤ low) : ∀ slot, slot ∈ slots -> finished.Temporary floor slot := by
  induction slots generalizing low operations code with
  | nil => exact nofun
  | cons _ _ ih =>
    cases translates with
    | spill _ temporary later =>
      have taken := temporary.lower le
      exact List.forall_mem_cons.mpr ⟨taken, ih later (Nat.le_succ_of_le taken.above)⟩

/-- All instructions of translated code are on the list.  The induction is on the
translation, with one case for each of its rules. -/
theorem Translates.serves (translates : Translates outer origin finished depth low task code)
    (known : task.ThroughoutIf strict Known) (le : floor ≤ low) :
    code.Every (Serves origin finished strict Known floor) := by
  have jumps (instruction : Instruction) : instruction.opcode.isJump = true ->
      Serves origin finished strict Known floor instruction := .jump
  induction translates with
  | kept _ inner | droppedNothing _ _ inner | evaluated _ _ inner => exact inner known le
  | dropped _ _ inner | statementBody _ _ inner | valueBody _ _ _ inner
  | effectBody _ _ inner => exact .append (inner known le) (.single .plain)
  | assignment _ inner | compoundAssignment _ inner | parenthesized _ inner | format _ inner
  | storeParenthesized _ inner | updateParenthesized _ inner | block _ inner
  | expressionStatement _ inner => exact inner known.narrow le
  | literal _ loads => exact .literal loads
  | parameter found =>
    exact .single (.argument (.inl rfl) found fun isStrict =>
      (known isStrict _ (.head _)).here)
  | localVariable found => exact .single (.declared (.inl rfl) found)
  | staticMember found _ loads =>
    exact .load loads (Obtains.knownMember · found)
  | instanceMember found _ _ loads inner =>
    exact .append (inner known.narrow le) (.load loads (Obtains.knownMember · found))
  | element _ _ _ _ first second =>
    exact .append (first known.narrow le)
      (.append (second known.narrow le) (.single (.element (.inl rfl))))
  | binary _ _ operates first second =>
    exact .append (first known.narrow le) (.append (second known.narrow le) (.operates operates))
  | unary _ operates inner => exact .append (inner known.narrow le) (.operates operates)
  | conversion _ _ _ converts inner => exact .append (inner known.narrow le) (.converts converts)
  | conditional _ _ _ first second third | ifElse _ _ _ _ first second third =>
    exact .append (first known.narrow le)
      (.branch jumps (second known.narrow le) (third known.narrow le))
  | call found _ _ _ calls first => exact .append (first known.narrow le) (.calls found calls)
  | callOnReceiver found _ _ _ _ calls first second =>
    exact .append (first known.narrow le) (.append (second known.narrow le) (.calls found calls))
  | delegateCreation _ found => exact .single (.loadDelegate found.lambdaIndex)
  | interpolation _ isConstructor lengths holes type creates _ isTake takes inner =>
    refine .append (.append (.loads lengths rfl) (.append (.loads holes rfl) (.single ?_)))
      (.append (inner known.narrow le) (.single ?_))
    · exact .new type creates fun coherent =>
        ⟨_, rfl, Obtains.textConstructor coherent isConstructor⟩
    · exact .callHost (.inr (.inr rfl)) takes (Obtains.builderMethod · isTake)
  | newArray _ _ type first => exact .append (first known.narrow le) (.single (.newArray type))
  | newVector _ length type _ inner =>
    exact .append (.loads length.2 rfl) (.append (.single (.newArray type)) (inner known.narrow le))
  | newSizedVector _ _ type _ first second =>
    exact .append (first known.narrow le)
      (.append (.single (.newArray type)) (second known.narrow le))
  | objectCreation found _ _ type creates _ first second =>
    exact .append (first known.narrow le)
      (.append (.single (.new type creates (Obtains.constructorOf · found)))
        (second known.narrow le))
  | moreValues _ _ first second | alignment _ _ first second | moreStatements _ _ first second =>
    exact .append (first known.narrow le) (second known.narrow le)
  | moreItems index _ _ first second =>
    exact .append (.single .plain) (.append (.loads index.2 rfl) (.append (first known.narrow le)
      (.append (.single (.element (.inr rfl))) (second known.narrow le))))
  | textPart found text appends _ inner =>
    refine .append (.append (.single .plain) (.append (.loads text rfl) (.single ?_)))
      (inner known.narrow le)
    exact .callHost (.inr (.inr rfl)) appends (Obtains.builderMethod · found)
  | holePart found _ _ format appends _ first second third =>
    refine .append (.single .plain) (.append (first known.narrow le)
      (.append (second known.narrow le) (.append ?_ (.append (.single ?_)
        (third known.narrow le)))))
    · rcases format with ⟨_, rfl⟩ | ⟨specifier, _, loads⟩
      · exact Code.every_empty
      · exact .loads loads rfl
    · exact .callHost (.inr (.inr rfl)) appends (Obtains.appendHole · found)
  | entry _ _ first second =>
    exact .append (.single .plain) (.append (first known.narrow le) (second known.narrow le))
  | storeSimple found _ stores inner =>
    have isKnown (isStrict : strict = true) := (known isStrict _ (.head _)).here
    exact .append (inner known.narrow le) (.keeping ((Serves.simple found isKnown).2 stores))
  | storeImplicit found _ _ _ _ stores above inner =>
    exact .append (inner known.narrow le) (.storesAbove above le
      (.store stores (Obtains.knownMember · found)))
  | storeMember found _ _ _ _ stores above first second =>
    exact .append (first known.narrow le) (.append (second known.narrow le) (.storesAbove above le
        (.store stores (Obtains.knownMember · found))))
  | storeElement _ _ _ _ _ above first second third =>
    exact .append (first known.narrow le) (.append (second known.narrow le)
      (.append (third known.narrow le) (.storesAbove above le (.single (.element (.inr rfl))))))
  | updateSimple found loads _ operates stores inner =>
    have isKnown (isStrict : strict = true) := (known isStrict _ (.head _)).here
    exact .append ((Serves.simple found isKnown).1 loads) (.append (inner known.narrow le)
      (.append (.operates operates) (.keeping ((Serves.simple found isKnown).2 stores))))
  | updateMember found _ _ _ temporary loads _ operates stores above first second =>
    have isMember (coherent : origin.Coherent) := Obtains.knownMember coherent found
    have taken := List.forall_mem_singleton.mpr (temporary.lower le)
    exact .append (first known.narrow le) (.append (.single (.temporary (.inr rfl)
      (temporary.lower le))) (.append (.reload taken) (.append (.reload taken)
        (.append (.load loads isMember) (.append (second known.narrow le)
          (.append (.operates operates) (.storesAbove above le (.store stores isMember))))))))
  | updateElement _ _ _ temporary onIndices _ operates above first second third =>
    have own := temporary.lower le
    have higher := Nat.le_succ_of_le own.above
    have taken := List.forall_mem_cons.mpr ⟨own, temporary_of_spills onIndices higher⟩
    exact .append (first known.narrow le) (.append (.single (.temporary (.inr rfl) own))
      (.append (second known.narrow higher) (.append (.reload taken) (.append (.reload taken)
        (.append (.single (.element (.inl rfl))) (.append (third known.narrow le)
          (.append (.operates operates)
            (.storesAbove above le (.single (.element (.inr rfl)))))))))))
  | spill _ temporary _ first second =>
    have own := temporary.lower le
    exact .append (first known.narrow le) (.append (.single (.temporary (.inr rfl) own))
      (second known.narrow (Nat.le_succ_of_le own.above)))
  | declaration found _ inner =>
    exact .append (inner known.narrow le) (.single (.declared (.inr rfl) found))
  | defaultDeclaration found _ present =>
    exact .append (.single (.pushDefault present)) (.single (.declared (.inr rfl) found))
  | returnValue _ inner | returnDropped _ inner =>
    exact .append (inner known.narrow le) (.single .plain)
  | returnNothing => exact .single .plain
  | whileLoop _ _ first second => exact .loop jumps (first known.narrow le) (second known.narrow le)
  | onlyIf _ _ _ first second =>
    exact .append (first known.narrow le) (.guarded jumps (second known.narrow le))
  | noValues | noItems | noParts | noAlignments | noEntries | noSpills | noStatements =>
    exact Code.every_empty

theorem Translates.servesAny
    (translates : Translates outer origin finished depth low task code) (le : floor ≤ low) :
    code.Every (Serves origin finished false (fun _ => True) floor) :=
  translates.serves nofun le

end

end Compile
end OpMachine
