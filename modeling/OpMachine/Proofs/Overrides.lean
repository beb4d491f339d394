import OpMachine.Proofs.CompilationEnds
import OpMachine.Proofs.StackDiscipline
import OpMachine.Proofs.TranslatedParts

namespace OpMachine

/-!
# Overrides

A virtual call looks along the bases of its receiver for a method with the name
and the signature of the method that the machine finds under the hash in the
code.  That is the method that the compiler selected, unless another one has its
hash.  A generic method is selected closed over its type arguments, and it is the
closed signature that is looked for, among signatures as they are declared.
Numbers of generic parameters are not compared at all.

So the most derived override runs where closing keeps the signature and no other
method of the name has it.  Where closing changes the signature no override ever
runs: the call reaches the selected method itself, or a method that has the closed
signature by coincidence.
-/

/-! ## Methods along a chain -/

open Catalog

namespace MethodEntry

/-- What a virtual call of a method looks for. -/
def Fits (entry other : MethodEntry) : Prop :=
  other.name = entry.name ∧ other.signature = entry.signature

/-- A declaration overrides another one. -/
structure OverriddenBy (declared other : MethodEntry) : Prop where
  name : other.name = declared.name
  signature : other.signature = declared.signature
  arity : other.genericParameters.length = declared.genericParameters.length

/-- A declared method as a call selects it: as it is, or as the catalog holds it
closed over the type arguments of the call. -/
inductive SelectedAs (catalog : Catalog) (symbol : MethodSymbol) (declared : MethodEntry) :
    MethodEntry -> Prop
  | plain (notGeneric : declared.isGenericDefinition = false) :
      SelectedAs catalog symbol declared declared
  | closed {arguments : List TypeHash} {entry : MethodEntry}
      (denoted : symbol.typeArguments.mapM catalog.denoted? = some arguments)
      (held : catalog.closedMethods[TypeHash.ofClosedMethod declared.hash arguments]?
        = some entry) : SelectedAs catalog symbol declared entry

end MethodEntry

/-- The methods along a chain of bases, those of the most derived type first. -/
def Catalog.methodsAlong (chain : List (HostType × List TypeHash)) : List MethodEntry :=
  chain.flatMap (·.1.methods)

/-- A method is the first of a list with a property. -/
def MethodEntry.FirstOf (methods : List MethodEntry) (Property : MethodEntry -> Prop)
    (method : MethodEntry) : Prop :=
  ∃ before after, methods = before ++ method :: after
    ∧ Property method ∧ ∀ other, other ∈ before -> ¬ Property other

/-- What a virtual call of an entry runs: the first method that fits, or the entry
itself if there is none. -/
inductive MethodEntry.Runs (methods : List MethodEntry) (entry : MethodEntry) :
    MethodEntry -> Prop
  | found {target : MethodEntry} (first : FirstOf methods entry.Fits target) :
      Runs methods entry target
  | itself (none : ∀ other, other ∈ methods -> ¬ entry.Fits other) : Runs methods entry entry

/-- What a virtual call of a method runs, compared with the overrides of the
declaration that was selected. -/
structure MethodEntry.Dispatches (methods : List MethodEntry)
    (declared called target : MethodEntry) : Prop where
  runs : Runs methods called target
  overridden : declared ∈ methods -> declared.Fits called ->
    (∀ other, other ∈ methods -> declared.Fits other ->
      other.genericParameters.length = declared.genericParameters.length) ->
    FirstOf methods declared.OverriddenBy target
  missed : ¬ declared.Fits called -> ¬ declared.OverriddenBy target

namespace MethodEntry

variable {methods : List MethodEntry} {declared entry target : MethodEntry}

variable (runs : Runs methods entry target)

include runs

/-- A name and a signature that closing keeps lead to the first override. -/
theorem Runs.overridden (listed : declared ∈ methods) (kept : declared.Fits entry)
    (sameArity : ∀ other, other ∈ methods -> declared.Fits other ->
      other.genericParameters.length = declared.genericParameters.length) :
    FirstOf methods declared.OverriddenBy target := by
  have fits_iff (other : MethodEntry) : entry.Fits other ↔ declared.Fits other := by
    rw [Fits, Fits, kept.1, kept.2]
  cases runs with
  | found first =>
    obtain ⟨before, after, along, fits, none⟩ := first
    have member : target ∈ methods := along ▸ List.mem_append_right _ (.head _)
    have fitsDeclared := (fits_iff target).mp fits
    refine ⟨before, after, along,
      ⟨fitsDeclared.1, fitsDeclared.2, sameArity target member fitsDeclared⟩, ?_⟩
    intro other earlier overrides
    exact none other earlier ((fits_iff other).mpr ⟨overrides.name, overrides.signature⟩)
  | itself none => exact absurd ((fits_iff declared).mpr ⟨rfl, rfl⟩) (none declared listed)

/-- Others lead to no override. -/
theorem Runs.missed (changed : ¬ declared.Fits entry) : ¬ declared.OverriddenBy target := by
  intro overrides
  cases runs with
  | found first =>
    obtain ⟨_, _, _, fits, _⟩ := first
    exact changed ⟨fits.1.symm.trans overrides.name, fits.2.symm.trans overrides.signature⟩
  | itself => exact changed ⟨overrides.name, overrides.signature⟩

omit runs in
theorem Runs.eq_first (runs : Runs (first :: rest) entry target) (fits : entry.Fits first) :
    target = first := by
  cases runs with
  | itself none => exact absurd fits (none first (.head _))
  | found found =>
    obtain ⟨before, after, along, _, none⟩ := found
    cases before with
    | nil => exact (List.cons.inj along).1.symm
    | cons =>
      cases (List.cons.inj along).1
      exact absurd fits (none first (.head _))

end MethodEntry

variable {runtimeType : TypeHash}

theorem Catalog.HasBases.runs_overriding {catalog : Catalog} (hasBases : catalog.HasBases)
    (ends : catalog.Chain runtimeType chain) (entry : MethodEntry) :
    MethodEntry.Runs (methodsAlong chain) entry (catalog.overriding runtimeType entry) := by
  have looked : catalog.overriding runtimeType entry = ((methodsAlong chain).find? fun other =>
      other.name = entry.name && other.signature == entry.signature).getD entry := by
    rw [overriding, hasBases.hierarchy_eq ends, methodsAlong, List.find?_flatMap]
  have fits_iff (other : MethodEntry) :
      (decide (other.name = entry.name) && other.signature == entry.signature) = true
        ↔ entry.Fits other := by
    rw [Bool.and_eq_true, decide_eq_true_iff, beq_iff_eq, MethodEntry.Fits]
  rw [looked]
  cases found : (methodsAlong chain).find? fun other =>
      other.name = entry.name && other.signature == entry.signature with
  | none =>
    refine .itself fun other member fits => ?_
    exact List.find?_eq_none.mp found other member ((fits_iff other).mpr fits)
  | some target =>
    obtain ⟨fits, before, after, along, none⟩ := List.find?_eq_some_iff_append.mp found
    refine .found ⟨before, after, along, (fits_iff target).mp fits, fun other member fits => ?_⟩
    have not := none other member
    rw [(fits_iff other).mpr fits] at not
    cases not

/-! ## Selected methods -/

namespace Catalog

variable {before after : Catalog} {hash : TypeHash} {declared : HostType × List TypeHash}

theorem Grows.declaring? (grows : before.Grows after)
    (declares : before.declaring? hash = some declared) :
    after.declaring? hash = some declared := by
  unfold Catalog.declaring? at declares ⊢
  cases found : before.get? hash with rw [found] at declares
  | none => cases declares
  | some type =>
    rw [grows.get? found]
    cases isDefinition : type.definition with simp only [isDefinition] at declares ⊢
    | none => exact declares
    | some =>
      obtain ⟨_, isDeclaring, rfl⟩ := Option.map_eq_some_iff.mp declares
      rw [grows.get? isDeclaring, Option.map_some]

theorem Grows.mem_ancestry (grows : before.Grows after)
    (member : declared ∈ before.ancestry allowed hash) :
    declared ∈ after.ancestry allowed hash := by
  induction allowed generalizing hash with
  | zero => cases member
  | succ _ ih =>
    rw [ancestry] at member ⊢
    cases declares : before.declaring? hash with rw [declares] at member
    | none => cases member
    | some own =>
      rw [grows.declaring? declares]
      rcases List.mem_cons.mp member with rfl | above
      · exact .head _
      · refine .tail _ ?_
        cases isBase : own.1.base with
        | none =>
          simp only [isBase] at above
          exact absurd above List.not_mem_nil
        | some =>
          simp only [isBase] at above ⊢
          exact ih above

theorem Grows.mem_hierarchy (grows : before.Grows after) (member : declared ∈ before.hierarchy hash) :
    declared ∈ after.hierarchy hash := by
  unfold hierarchy at member ⊢
  rw [grows.types]
  exact grows.mem_ancestry member

/-- A method that a call selects on the type it names: it or its generic
definition is declared there or in a base. -/
structure Selects (catalog : Catalog) (symbol : MethodSymbol) (declared entry : MethodEntry) :
    Prop where
  declares : ∃ type, (catalog.lookup (resolve symbol.containingType)).1 = some type
    ∧ declared ∈ methodsAlong (catalog.hierarchy type)
  name : declared.name = symbol.name
  selected : declared.SelectedAs catalog symbol entry

end Catalog

theorem Make.lookup_resolve {type : TypeHash} (runs : resolve descriptor before = .ok type after) :
    before.catalog.lookup (Catalog.resolve descriptor) = (some type, after.catalog) := by
  obtain ⟨answer, _, looked, given⟩ := ok_of_bind runs
  injection looked with sameAnswer sameWorkspace
  subst sameWorkspace
  cases answer with
  | none => cases given
  | some =>
    cases given
    exact Prod.ext sameAnswer rfl

theorem Make.denoted_resolveAll {descriptors : List Descriptor} {types : List TypeHash}
    (runs : resolveAll descriptors before = .ok types after) :
    descriptors.mapM before.catalog.denoted? = some types := by
  induction descriptors generalizing before types with
  | nil =>
    cases runs
    rfl
  | cons head _ ih =>
    obtain ⟨_, middle, resolved, runs⟩ := ok_of_bind runs
    obtain ⟨_, _, resolving, given⟩ := ok_of_bind runs
    cases given
    have grown := (Make.asks_grows.resolve head _ _ _ resolved).toSameRegistered
    have first : before.catalog.denoted? head = some _ := congrArg Prod.fst (lookup_resolve resolved)
    rw [List.mapM_cons, first, ← grown.denoted?, ih resolving]
    rfl

namespace Compile

theorem resolve_ok {type : TypeHash} (runs : resolve descriptor before = .ok type after) :
    before.workspace.catalog.denoted? descriptor = some type
      ∧ before.workspace.catalog.Grows after.workspace.catalog := by
  obtain ⟨_, made, rfl⟩ := make_ok runs
  exact ⟨congrArg Prod.fst (Make.lookup_resolve made),
    Make.asks_grows.resolve descriptor _ _ _ made⟩

section

variable {outer : Surroundings} {origin catalog : Catalog} {symbol : MethodSymbol}
  {entry : MethodEntry}

theorem hostMethod_selects {owner : TypeHash} (sound : before.Sound outer origin)
    (runs : hostMethod owner symbol before = .ok entry after)
    (grows : after.workspace.catalog.Grows catalog) :
    ∃ declared, declared ∈ methodsAlong (catalog.hierarchy owner)
      ∧ declared.name = symbol.name ∧ declared.isStatic = symbol.isStatic
      ∧ declared.SelectedAs catalog symbol entry := by
  obtain ⟨_, candidate, _, inside, isStatic, grown, chosen⟩ := hostMethod_cases sound runs
  have later := grown.trans grows
  obtain ⟨_, _, above, listed, named⟩ := exists_of_mem_methodsNamed inside
  refine ⟨candidate.method, List.mem_flatMap.mpr ⟨_, later.mem_hierarchy above, listed⟩, named,
    isStatic, ?_⟩
  rcases chosen with ⟨notGeneric, rfl⟩ | ⟨given, _, resolved, stored⟩
  · exact .plain notGeneric
  · obtain ⟨_, made, _⟩ := make_ok resolved
    refine .closed ?_ (grows.closedMethods _ _ stored)
    rw [later.toSameRegistered.denoted?]
    exact Make.denoted_resolveAll made

theorem Obtains.selects (obtained : Obtains outer origin depth finished
      (callTarget outer hasReceiver symbol count) (.host entry))
    (grows : finished.workspace.catalog.Grows catalog) :
    ∃ declared, catalog.Selects symbol declared entry := by
  obtain ⟨owner, _, _, sound, found, selected, grown⟩ := obtained.hostMethod
  obtain ⟨declared, along, named, _, isSelected⟩ :=
    hostMethod_selects sound selected (grown.trans grows)
  refine ⟨declared, ⟨owner, ?_, along⟩, named, isSelected⟩
  rw [← found]
  exact (regular_resolve _).stable _ _ grows.toSameRegistered

end

end Compile

/-! ## Virtual calls -/

variable {function : HostFunction}

/-- A virtual call runs the host function of what overrides the named method. -/
theorem Execute.instruction_callVirtual {frame : Frame} {heap : Heap} {index : UInt16}
    {count : UInt8} {complete : Opcode.callVirtual.operandSize = 3} {hash : TypeHash}
    {entry : MethodEntry} {receiver : Value} {arguments rest : List Value}
    (holds : frame.Faces (.withCount .callVirtual index count complete))
    (present : frame.method.pool.get? index.toNat = some (.hash hash))
    (known : catalog.method? hash = some entry) (counted : count.toNat = arguments.length)
    (operands : frame.operands = arguments.reverse ++ receiver :: rest)
    (isType : heap.runtimeType receiver = some runtimeType)
    (isBody : (catalog.overriding runtimeType entry).body = .host function) :
    instruction catalog ⟨frame, heap⟩ = .ok
      (.call (.host function { receiver := some receiver, arguments }) entry.returnsValue)
      ⟨frame.past 4 rest, heap⟩ := by
  have bytes := (Chunk.holds_append _ _ (Instruction.wordBytes index) [count]).mp holds.2
  have readHash : readHash ⟨frame.past 1, heap⟩ = _ :=
    readHash_run bytes.1 present
  have readCount : readByte ⟨{ frame with position := frame.position + 1 + 2 }, heap⟩ = _ :=
    readByte_of_holds bytes.2
  have popped : popMany arguments.length ⟨frame.past 4, heap⟩ = _ :=
    popMany_run operands
  rw [← counted] at popped
  have required (name : String) (running : Running) :
      requireReceiver receiver name running = .ok () running := by
    cases receiver with
    | void | null => cases isType
    | _ => rfl
  rw [instruction_of_holds holds]
  change callOnReceiver catalog true _ = _
  unfold callOnReceiver
  rw [bind_of_ok readHash, bind_of_ok readCount, bind_of_ok popped, known]
  rw [bind_of_ok (rfl : found hash (some entry) _ = .ok entry _),
    bind_of_ok (pop_run rfl), bind_of_ok (required _ _),
    bind_of_ok (rfl : Execute.heap _ = .ok heap _), isType]
  have called (running : Running) :
      hostCallee (catalog.overriding runtimeType entry) (some receiver) arguments running
        = .ok (.host function { receiver := some receiver, arguments }) running := by
    unfold hostCallee
    rw [isBody]
    rfl
  exact bind_of_ok (called _)

/-- From a position a method calls what overrides the method under a hash,
whatever receiver with a chain of bases and whatever arguments are there. -/
def CompiledMethod.CallsOverride (method : CompiledMethod) (catalog : Catalog) (position : Nat)
    (declared called : MethodEntry) (count : Nat) : Prop :=
  ∀ (frame : Frame) (heap : Heap) (receiver : Value) (arguments rest : List Value)
    (runtimeType : TypeHash) (chain : List (HostType × List TypeHash)),
    frame.method = method -> frame.position = position ->
    frame.operands = arguments.reverse ++ receiver :: rest -> arguments.length = count ->
    heap.runtimeType receiver = some runtimeType -> catalog.Chain runtimeType chain ->
    ∃ target, MethodEntry.Dispatches (methodsAlong chain) declared called target
        ∧ ∀ function, target.body = .host function ->
          Execute.instruction catalog ⟨frame, heap⟩ = .ok
            (.call (.host function { receiver := some receiver, arguments }) called.returnsValue)
            ⟨{ frame with operands := rest, position := position + 4 }, heap⟩

/-- In a method that was compiled from a body, the code of a call that names a
virtual method of the host ends by calling what overrides it. -/
structure CompiledMethod.CallsOverrides (source : Source) (catalog : Catalog)
    (method : CompiledMethod) (origin : MethodOrigin) : Prop where
  body : source.HasBody origin.symbol origin.operation
  encodes : method.Encodes origin.surroundings origin.catalog origin.symbol origin.operation
    origin.finished origin.code
  grown : origin.finished.workspace.catalog.Grows catalog
  calls : ∀ (start : Nat) (use : ValueUse) (info : Info) (receiver : Option Operation)
    (symbol : MethodSymbol) (arguments : List Operation) (part : MarkedCode),
    (start, .expression use (.invocation info receiver symbol arguments), part)
      ∈ origin.code.parts 0 ->
    ∃ depth target,
      origin.Obtains depth (Compile.callTarget origin.surroundings receiver.isSome symbol
        arguments.length) target
      ∧ ∀ entry function, target = .host entry -> entry.body = .host function ->
        entry.isStatic = false -> entry.isVirtual = true ->
          ∃ declared called position, catalog.Selects symbol declared entry
            ∧ catalog.method? entry.hash = some called
            ∧ method.CallsOverride catalog position declared called arguments.length
            ∧ start ≤ position ∧ (use = .kept -> position + 4 = start + part.size)

namespace Compile

variable {outer : Surroundings} {origin : Catalog} {finished : Body} {info : Info}
  {receiver : Option Operation} {symbol : MethodSymbol} {arguments : List Operation}
  {whole : MarkedCode} {start : Nat} {code : MarkedCode}

theorem Calls.virtual (calls : Calls pool (.host entry) count code)
    (isBody : entry.body = .host function) (onInstance : entry.isStatic = false)
    (isVirtual : entry.isVirtual = true) :
    ∃ index : UInt16, pool.Has index.toNat (.hash entry.hash)
      ∧ code = .single (.withCount .callVirtual index count rfl) := by
  have isOpcode : hostOpcode entry = .callVirtual := by
    rw [hostOpcode, onInstance, isVirtual]
    rfl
  have same (opcode : Opcode) (complete : opcode.operandSize = 3) (index : UInt16)
      (equal : opcode = .callVirtual) : (.single (.withCount opcode index count complete)
        : MarkedCode) = .single (.withCount .callVirtual index count rfl) := by
    subst equal
    rfl
  cases calls with
  | delegate _ _ invokes => cases invokes.symm.trans isBody
  | host _ _ _ index _ present => exact ⟨index, present, same _ _ index isOpcode⟩

theorem TranslatesPart.invocation (translated : TranslatesPart outer origin finished
      (.expression use (.invocation info receiver symbol arguments)) part)
    (stands : part.StandsIn whole 0 start) :
    ∃ depth target call position, Obtains outer origin depth finished
        (callTarget outer receiver.isSome symbol arguments.length) target
      ∧ arguments.length < 256
      ∧ Calls finished.emitter.pool target arguments.length.toUInt8 call
      ∧ call.StandsIn whole 0 position ∧ start ≤ position
      ∧ (use = .kept -> position + call.size = start + part.size) := by
  obtain ⟨depth, low, translates⟩ := translated
  suffices shaped : ∃ code, Translates outer origin finished depth low
      (.shape (.invocation info receiver symbol arguments)) code
        ∧ code.StandsIn whole 0 start ∧ (use = .kept -> code.size = part.size) by
    obtain ⟨_, shape, stands, sizes⟩ := shaped
    cases shape with
    | call found _ few _ calls =>
      refine ⟨depth, _, _, _, found, few, calls, stands.second, Nat.le_add_right _ _, ?_⟩
      intro kept
      rw [← sizes kept, Code.size_append, Nat.add_assoc]
    | callOnReceiver found _ few _ _ calls =>
      refine ⟨depth, _, _, _, found, few, calls, stands.second.second, ?_, fun kept => ?_⟩
      · exact Nat.le_trans (Nat.le_add_right _ _) (Nat.le_add_right _ _)
      · rw [← sizes kept, Code.size_append, Code.size_append, Nat.add_assoc, Nat.add_assoc]
  cases translates with
  | kept shape => exact ⟨_, shape, stands, fun _ => rfl⟩
  | dropped shape => exact ⟨_, shape, stands.first, nofun⟩
  | droppedNothing shape => exact ⟨_, shape, stands, nofun⟩

end Compile

theorem CompiledMethod.Encodes.callsOverrides {source : Source} {method : CompiledMethod}
    {catalog : Catalog} {origin : MethodOrigin} (coherent : origin.catalog.Coherent)
    (grows : origin.finished.workspace.catalog.Grows catalog) (hasBases : catalog.HasBases)
    (body : source.HasBody origin.symbol origin.operation)
    (encodes : method.Encodes origin.surroundings origin.catalog origin.symbol origin.operation
      origin.finished origin.code) : method.CallsOverrides source catalog origin where
  body
  encodes
  grown := grows
  calls := by
    intro start use info receiver symbol arguments part member
    obtain ⟨depth, target, _, position, found, few, calls, placed, after, ending⟩ :=
      (encodes.translates.eachPart.of_mem member).invocation (.of_part member)
    refine ⟨depth, target, found, ?_⟩
    rintro entry function rfl isBody onInstance isVirtual
    obtain ⟨declared, selects⟩ := found.selects grows
    have known := (found.hostTarget coherent).grow grows
    obtain ⟨called, isCalled⟩ := Option.isSome_iff_exists.mp known.isSome_method?
    obtain ⟨_, present, rfl⟩ := calls.virtual isBody onInstance isVirtual
    rw [← encodes.pool] at present
    refine ⟨declared, called, position, selects, isCalled, ?_, after, ending⟩
    rintro frame heap value values rest runtimeType chain rfl rfl operands counted isType ends
    have runs := hasBases.runs_overriding ends called
    refine ⟨_, ⟨runs, runs.overridden, runs.missed⟩, ?_⟩
    intro function isFunction
    have held : frame.method.chunk.Holds 0 (origin.code.instructions.flatMap Instruction.bytes) :=
      frame.method.chunk.holds_of_values_eq [] _ [] (encodes.values.trans (List.append_nil _).symm)
    have isCount : arguments.length.toUInt8.toNat = values.length := by
      rw [counted]
      exact UInt8.toNat_ofNat_of_lt few
    exact Execute.instruction_callVirtual (Instruction.holds_place _ held _ _ placed.mem_place)
      present.hash isCalled isCount operands isType isFunction

/-- In everything that a declaration compiles to, a call of a virtual host method
looks along the bases of its receiver for the name and the signature of the method
under the hash of the selected one.  The first method that has them runs, or else
the called one.  That is the most derived override of the declaration where name
and signature are the declared ones and belong to no method with another number of
generic parameters; it is no override where closing over type arguments changed the
signature. -/
theorem Make.declaration_callsOverrides {definitions : List TypeDefinition} {built : Catalog}
    (isBuilt : Catalog.build definitions = .ok built) {source : Source} {id : SyntaxId}
    {before after : Workspace} {function : CompiledFunction} {catalog : Catalog}
    (asked : built.Asked before.catalog)
    (compiles : Make.declaration source id before = .ok function after)
    (askedLater : after.catalog.Asked catalog) :
    function.method.Throughout fun method =>
      ∃ origin, method.CallsOverrides source catalog origin := by
  have coherent := asked.grows.coherent (Catalog.coherent_build isBuilt)
  have hasBases := (Catalog.hasBases_build isBuilt).asked
    ((asked.trans (Make.asked_declaration compiles)).trans askedLater)
  refine Make.throughout_declaration (fun body isCoherent grows encodes => ?_) coherent compiles
    askedLater.grows
  exact ⟨⟨_, _, _, _, _, _⟩, CompiledMethod.Encodes.callsOverrides isCoherent grows hasBases
    body encodes⟩

namespace Portrait

def circle : TypeDefinition := Sample.circle ⟨"Data"⟩

theorem chain_derived {built : Catalog} (isBuilt : build types = .ok built) {hash : TypeHash}
    {definition : TypeDefinition} (registered : TypeDefinition.registered?
      (SystemTypes.definitions ++ types) hash = some definition)
    (derived : definition.asType.base = some (.ofName "Shape")) :
    (closing built).Chain hash [(definition.asType, []), (shape.asType, [])] := by
  have same : built.SameRegistered (closing built) := ⟨rfl, rfl, rfl, rfl, rfl⟩
  have hasBases := (hasBases_build isBuilt).asked (asked_closing isBuilt)
  refine .derived (hasBases.declaring_of_registered
    (@getElem?_types _ isBuilt { catalog := closing built } same _ _ registered)) derived ?_
  exact .root (hasBases.declaring_of_registered
    (@types_shape _ isBuilt { catalog := closing built } same)) rfl

end Portrait

/-- The sample calls a method of shapes.  On a circle that is the one of circles, which
overrides it, and on a square the inherited one. -/
theorem portrait_callsOverrides : ∃ built function,
    ∃ after position, Catalog.build Portrait.types = .ok built
      ∧ Make.declaration Portrait.source ⟨1⟩ { catalog := built } = .ok function after
      ∧ ∀ (frame : Frame) (heap : Heap) (receiver : Value) (rest : List Value) type native,
        frame.method = function.method -> frame.position = position ->
        frame.operands = receiver :: rest -> heap.runtimeType receiver = some type ->
        (type, native) ∈ [(Portrait.circle.hash, ⟨.ofName "Circle::Name", Sample.describe "circle"⟩),
          (Portrait.square.hash, ⟨.ofName "Shape::Name", Sample.describe "shape"⟩)] ->
        Execute.instruction (Portrait.closing built) ⟨frame, heap⟩ = .ok
          (.call (.host native { receiver := some receiver }) true)
          ⟨{ frame with operands := rest, position := position + 4 }, heap⟩ := by
  obtain ⟨built, isBuilt⟩ := Portrait.exists_build
  obtain ⟨function, after, compiles, isAfter, _⟩ := Portrait.declaration isBuilt
  obtain ⟨origin, overrides⟩ := (Make.declaration_callsOverrides isBuilt .nothing compiles
    (isAfter ▸ .nothing : after.catalog.Asked (Portrait.closing built))).here
  obtain ⟨plain, _⟩ := Portrait.plain_of_encodes isBuilt overrides.body overrides.encodes
    overrides.grown
  obtain ⟨start, part, member⟩ := plain.exists_part (.tail _ (.head _))
  obtain ⟨_, _, obtained, calls⟩ := overrides.calls start _ _ _ _ _ part member
  have same := Portrait.sameRegistered isBuilt overrides.encodes overrides.grown
  cases obtained.eq_of_leads fun stage grows =>
    ⟨stage, Portrait.leads_callTarget isBuilt (same.trans grows) origin.surroundings⟩
  obtain ⟨_, called, position, _, isCalled, calls, _⟩ := calls _ _ rfl rfl rfl rfl
  cases (Portrait.method?_name isBuilt).symm.trans isCalled
  refine ⟨built, function, after, position, isBuilt, compiles, ?_⟩
  intro frame heap receiver rest type native isMethod isPosition operands isType member
  obtain ⟨definition, first, others, ends, along, fits, isBody⟩ :
      ∃ (definition : TypeDefinition) (first : MethodEntry) (others : List MethodEntry),
        (Portrait.closing built).Chain type [(definition.asType, []), (Portrait.shape.asType, [])]
          ∧ methodsAlong [(definition.asType, []), (Portrait.shape.asType, [])] = first :: others
          ∧ Portrait.name.Fits first ∧ first.body = .host native := by
    have sameName : "Name" = "Name" := rfl
    have sameSignature : ([] : List TypeHash) = [] := rfl
    rcases member with _ | ⟨_, _ | ⟨_, ⟨⟩⟩⟩
    · exact ⟨Portrait.circle, _, _, Portrait.chain_derived isBuilt rfl rfl, rfl,
        ⟨sameName, sameSignature⟩, rfl⟩
    · exact ⟨Portrait.square, _, _, Portrait.chain_derived isBuilt rfl rfl, rfl,
        ⟨sameName, sameSignature⟩, rfl⟩
  obtain ⟨target, dispatches, executes⟩ := calls frame heap receiver [] rest type _ isMethod
    isPosition operands rfl isType ends
  have reached := dispatches.runs
  rw [along] at reached
  cases reached.eq_first fits
  exact executes native isBody

end OpMachine
