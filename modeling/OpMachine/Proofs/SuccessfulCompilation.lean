import OpMachine.Proofs.CodeSafety
import OpMachine.Sample

namespace OpMachine

/-!
# Computations that succeed

A compilation fails for want of a type, of a member or of room among the
constants.  What a computation does otherwise depends on the catalog alone, so a
stage of a compilation is the catalog with the object initializers around it and
a bound for the constants so far.  A computation that leads from one stage to
another succeeds in every body at the first one, whatever code was emitted
before, and a body compiles if all of its parts lead from stage to stage.
-/

/-! ## Emission -/

/-- The constants of a pool, and the indices that it has handed out, are below a
bound. -/
structure ConstantPool.Within (pool : ConstantPool) (bound : Nat) : Prop where
  size : pool.size ≤ bound
  index : ∀ (key : ConstantKey) index, pool.positions[key]? = some index -> index.toNat < bound

/-- Every pool keeps some bound, if only because an index has 32 bits. -/
theorem ConstantPool.exists_within (pool : ConstantPool) :
    ∃ bound, pool.Within bound :=
  ⟨max pool.size UInt32.size, Nat.le_max_left _ _, fun _ index _ =>
    Nat.lt_of_lt_of_le index.toNat_lt (Nat.le_max_right _ _)⟩

theorem ConstantPool.Within.add {pool : ConstantPool} (within : pool.Within bound)
    (few : bound < 65536) (constant : Constant) :
    (pool.add constant).1.toNat ≤ bound ∧ (pool.add constant).2.Within (bound + 1) := by
  unfold ConstantPool.add
  cases found : pool.positions[constant.key]? with
  | some index =>
    refine ⟨Nat.le_of_lt (within.index _ _ found), Nat.le_succ_of_le within.size, ?_⟩
    exact fun key other earlier => Nat.lt_succ_of_lt (within.index key other earlier)
  | none =>
    have isIndex : pool.size.toUInt32.toNat = pool.size :=
      UInt32.toNat_ofNat_of_lt' (Nat.lt_of_le_of_lt within.size (Nat.lt_trans few (by decide)))
    have inside : pool.size.toUInt32.toNat ≤ bound := Nat.le_trans (Nat.le_of_eq isIndex) within.size
    refine ⟨inside, ?_, fun key index earlier => ?_⟩
    · exact Nat.le_trans (Nat.le_of_eq (Array.size_push _)) (Nat.succ_le_succ within.size)
    · rcases inserted_or_found earlier with ⟨_, rfl⟩ | known
      · exact Nat.lt_succ_of_le inside
      · exact Nat.lt_succ_of_lt (within.index key index known)

/-- An emission that succeeds as long as constants are few. -/
def Emit.Succeeds {α : Type} (action : Emit α) (before after : Nat) : Prop :=
  ∀ emitter : Emitter, emitter.pool.Within before ->
    ∃ value next, action emitter = .ok value next ∧ next.pool.Within after

namespace Emit.Succeeds

variable {α β : Type} {bound : Nat}

theorem bind {first : Emit α} {next : α -> Emit β} (succeeds : Succeeds first before middle)
    (andThen : ∀ value, Succeeds (next value) middle after) :
    Succeeds (first >>= next) before after := by
  intro emitter within
  obtain ⟨value, second, runs, withinMiddle⟩ := succeeds emitter within
  obtain ⟨result, last, runsNext, withinAfter⟩ := andThen value second withinMiddle
  exact ⟨result, last, (bind_of_ok runs).trans runsNext, withinAfter⟩

/-- Most emissions have nothing to do with constants. -/
theorem keeping {action : Emit Unit} {step : Emitter -> Emitter}
    (runs : ∀ emitter, action emitter = .ok () (step emitter))
    (pool : ∀ emitter, (step emitter).pool = emitter.pool) : Succeeds action bound bound := by
  intro emitter within
  refine ⟨(), step emitter, runs emitter, ?_⟩
  rw [pool]
  exact within

theorem opcode (code : Opcode) : Succeeds (Emit.opcode code) bound bound :=
  keeping (fun _ => rfl) fun _ => rfl

theorem setLine (line : UInt32) : Succeeds (Emit.setLine line) bound bound := by
  refine keeping (fun _ => rfl) fun emitter => ?_
  unfold Emitter.atLine
  split <;> rfl

variable (few : bound < 65536)

include few

theorem intern (constant : Constant) : Succeeds (Emit.intern constant) bound (bound + 1) := by
  intro emitter within
  obtain ⟨small, next⟩ := within.add few constant
  have isSmall : (emitter.pool.add constant).1 < 65536 :=
    UInt32.lt_iff_toNat_lt.mpr (Nat.lt_of_le_of_lt small few)
  refine ⟨(emitter.pool.add constant).1.toUInt16,
    ⟨emitter.chunk, (emitter.pool.add constant).2, emitter.line⟩, ?_, next⟩
  exact (bind_of_ok rfl).trans (congrFun (if_pos isSmall) _)

theorem constant (value : Constant) : Succeeds (Emit.constant value) bound (bound + 1) := by
  refine (intern few value).bind fun index => ?_
  split
  · exact keeping (fun _ => rfl) fun _ => rfl
  · exact keeping (fun _ => rfl) fun _ => rfl

theorem withHash (code : Opcode) (hash : TypeHash) :
    Succeeds (Emit.withHash code hash) bound (bound + 1) :=
  (intern few (.hash hash)).bind fun _ => keeping (fun _ => rfl) fun _ => rfl

theorem call (code : Opcode) (method : TypeHash) (count : UInt8) :
    Succeeds (Emit.call code method count) bound (bound + 1) :=
  (withHash few code method).bind fun _ => keeping (fun _ => rfl) fun _ => rfl

omit few in
theorem new (few : bound + 1 < 65536) (type constructor : TypeHash) (count : UInt8) :
    Succeeds (Emit.new type constructor count) bound (bound + 2) := by
  refine (intern (Nat.lt_of_succ_lt few) (.hash type)).bind fun _ => ?_
  exact (intern few (.hash constructor)).bind fun _ => keeping (fun _ => rfl) fun _ => rfl

end Emit.Succeeds

/-! ## Types without ancestors -/

namespace Catalog

variable {catalog : Catalog}

/-- A registered type that derives from no other is all of its hierarchy. -/
theorem hierarchy_of_registered {hash : TypeHash} (found : catalog.types[hash]? = some type)
    (declared : type.definition = none) (underived : type.base = none) :
    catalog.hierarchy hash = [(type, [])] := by
  have declares : catalog.declaring? hash = some (type, []) := by
    rw [declaring?, get?, found]
    simp only [declared]
  rw [hierarchy, ancestry, declares]
  simp only [underived]

theorem constructors_of_registered {hash : TypeHash} (found : catalog.types[hash]? = some type)
    (declared : type.definition = none) :
    catalog.constructors hash = type.constructors.map (candidate []) := by
  rw [constructors, declaring?, get?, found]
  simp only [declared]

end Catalog

/-! ## Stages of a compilation -/

/-- What the course of a compilation depends on. -/
structure Stage where
  catalog : Catalog
  /-- The object initializers around the code. -/
  depth : Nat := 0
  /-- A bound for the constants so far. -/
  constants : Nat := 0
  lambdas : List CompiledLambda := []
  callees : List CompiledMethod := []

structure Body.IsAt (body : Body) (stage : Stage) : Prop where
  catalog : body.workspace.catalog = stage.catalog
  depth : body.implicitReceivers = stage.depth
  pool : body.emitter.pool.Within stage.constants
  lambdas : body.lambdas = stage.lambdas
  callees : body.callees = stage.callees

namespace Compile

variable {α β : Type} {stage before middle after : Stage}

/-- In every body at one stage a computation gives a value, and leaves a body at
another stage. -/
def Leads (before : Stage) (action : Compile α) (value : α) (after : Stage) : Prop :=
  ∀ body : Body, body.IsAt before -> ∃ next, action body = .ok value next
    ∧ next.IsAt after

namespace Leads

theorem bind {first : Compile α} {next : α -> Compile β} (leads : Leads before first value middle)
    (andThen : Leads middle (next value) result after) :
    Leads before (first >>= next) result after := by
  intro body isAt
  obtain ⟨second, runs, atMiddle⟩ := leads body isAt
  obtain ⟨last, runsNext, atAfter⟩ := andThen second atMiddle
  exact ⟨last, (bind_of_ok runs).trans runsNext, atAfter⟩

theorem pure (value : α) : Leads stage (Pure.pure value) value stage :=
  fun body isAt => ⟨body, rfl, isAt⟩

theorem emit {action : Emit Unit} (succeeds : action.Succeeds stage.constants constants) :
    Leads stage (Compile.emit action) () { stage with constants } := by
  rintro ⟨emitter, slots, lambdas, callees, implicitReceivers, workspace⟩ isAt
  obtain ⟨value, next, runs, within⟩ := succeeds emitter isAt.pool
  refine ⟨⟨next, slots, lambdas, callees, implicitReceivers, workspace⟩, ?_,
    { isAt with pool := within }⟩
  simp only [Compile.emit, runs]

/-! ## Answers of the catalog -/

theorem make {action : Make α} (runs : ∀ numbering,
      action ⟨stage.catalog, numbering⟩ = .ok value ⟨later, numbering⟩) :
    Leads stage (Compile.make action) value { stage with catalog := later } := by
  rintro ⟨emitter, slots, lambdas, callees, implicitReceivers, ⟨_, numbering⟩⟩ isAt
  cases isAt.catalog
  refine ⟨⟨emitter, slots, lambdas, callees, implicitReceivers, ⟨later, numbering⟩⟩, ?_,
    { isAt with catalog := rfl }⟩
  simp only [Compile.make, runs]

theorem catalog : Leads stage Compile.catalog stage.catalog stage :=
  make fun _ => rfl

theorem lookup {action : Lookup α} (answers : stage.catalog.lookup action = (answer, later)) :
    Leads stage (Compile.make (Make.lookup action)) answer { stage with catalog := later } := by
  refine make fun numbering => ?_
  change EStateM.Result.ok (stage.catalog.lookup action).1
    (⟨(stage.catalog.lookup action).2, numbering⟩ : Workspace) = _
  rw [answers]

theorem lookup_simple {later : Catalog} (known : later.byName? name = some type) :
    later.lookup (Catalog.resolve (.simple name)) = (some type, later) := by
  have isKey : later.byName? (genericKey name ([] : List Descriptor).length) = some type := known
  rw [Descriptor.simple, Catalog.resolve, Lookup.lookup_get_bind]
  simp only [isKey]
  rfl

theorem resolve (known : stage.catalog.byName? name = some type) :
    Leads stage (Compile.resolve (.simple name)) type stage := by
  refine make fun numbering => ?_
  have asked : Make.lookup (Catalog.resolve (.simple name)) ⟨stage.catalog, numbering⟩
      = .ok (some type) ⟨stage.catalog, numbering⟩ := by
    change EStateM.Result.ok (stage.catalog.lookup (Catalog.resolve (.simple name))).1
      (⟨(stage.catalog.lookup (Catalog.resolve (.simple name))).2, numbering⟩ : Workspace) = _
    rw [lookup_simple known]
  exact (bind_of_ok asked).trans rfl

theorem selectOverload (selected : Overload.select stage.catalog requested candidates
      = some candidate) (owner : TypeHash) (name : String) :
    Leads stage (Compile.selectOverload owner name requested candidates) candidate.method stage := by
  refine catalog.bind ?_
  rw [selected]
  exact pure _

theorem closeMethod (closed : stage.catalog.lookup (Catalog.closeMethod method arguments)
      = (some entry, later)) (owner : TypeHash) (requested : List TypeHash) :
    Leads stage (Compile.closeMethod method arguments owner requested) entry
      { stage with catalog := later } :=
  (lookup closed).bind (pure entry)

/-! ## Pieces of code -/

theorem argumentCount (few : count < 256) :
    Leads stage (Compile.argumentCount count) count.toUInt8 stage := by
  rw [Compile.argumentCount, if_pos few]
  exact pure _

theorem sizeOperand (small : size < 0x80000000) (few : stage.constants < 65536) (shape : String) :
    Leads stage (Compile.sizeOperand size shape) ()
      { stage with constants := stage.constants + 1 } := by
  rw [Compile.sizeOperand, if_pos small]
  exact emit (.constant few _)

theorem kept {code : Compile Unit} (leads : Leads before code () after) (info : Info) :
    Leads before (expression info .kept code) () after :=
  (emit (.setLine info.line)).bind (leads.bind (pure ()))

theorem dropped {code : Compile Unit} (leads : Leads before code () after) {info : Info}
    (produces : info.producesValue = true) :
    Leads before (expression info .discarded code) () after := by
  refine (emit (.setLine info.line)).bind (leads.bind ?_)
  rw [settle, produces, if_pos rfl]
  exact emit (.opcode .pop)

theorem requireImplicitReceiver (inside : stage.depth ≠ 0) :
    Leads stage Compile.requireImplicitReceiver () stage := by
  intro body isAt
  refine ⟨body, (bind_of_ok rfl).trans ?_, isAt⟩
  rw [if_neg (isAt.depth ▸ inside)]
  rfl

/-- The code of an object initializer leads back to the depth around it. -/
theorem withImplicitReceiver {first last : Catalog} {code : Compile Unit}
    (leads : Leads ⟨first, depth + 1, constants, lambdas, callees⟩ code ()
      ⟨last, depth + 1, more, lambdas, callees⟩) :
    Leads ⟨first, depth, constants, lambdas, callees⟩ (Compile.withImplicitReceiver code) ()
      ⟨last, depth, more, lambdas, callees⟩ := by
  intro body isAt
  obtain ⟨next, runs, isNext⟩ := leads
    { body with implicitReceivers := body.implicitReceivers + 1 }
    { isAt with depth := congrArg Nat.succ isAt.depth }
  refine ⟨{ next with implicitReceivers := next.implicitReceivers - 1 }, ?_,
    { isNext with depth := congrArg Nat.pred isNext.depth }⟩
  exact (bind_of_ok rfl).trans ((bind_of_ok runs).trans rfl)

/-- A method compiles if its body does. -/
theorem method {outer : Surroundings} {symbol : MethodSymbol} {operation : Operation}
    {first : Catalog}
    (leads : Leads { catalog := first } (bodyCode outer symbol.returnsValue operation) () after)
    (hasReceiver : Bool) (numbering : Numbering) : ∃ method workspace,
    Make.method outer symbol hasReceiver operation ⟨first, numbering⟩ = .ok method workspace
      ∧ workspace.catalog = after.catalog ∧ method.lambdas = after.lambdas
      ∧ method.callees = after.callees := by
  have empty : ConstantPool.Within {} 0 := by
    refine ⟨Nat.le_refl 0, fun key index found => ?_⟩
    cases Std.HashMap.getElem?_empty.symm.trans found
  obtain ⟨body, runs, isAt⟩ := leads
    { slots := .ofMethod symbol hasReceiver, workspace := ⟨first, numbering⟩ }
    ⟨rfl, rfl, empty, rfl, rfl⟩
  simp only [Make.method, runs]
  exact ⟨_, _, rfl, isAt.catalog, isAt.lambdas, isAt.callees⟩

/-- A method without functions in its body compiles to a function if the body
does. -/
theorem topLevel {symbol : MethodSymbol} {operation : Operation} {first : Catalog}
    {numbering : Numbering} (typed : Make.functionType symbol ⟨first, numbering⟩
      = .ok (type, signature) ⟨first, numbering⟩) (plain : operation.functions = [])
    (leads : ∀ outer, Leads { catalog := first }
      (bodyCode outer symbol.returnsValue operation) () after)
    (callee : MethodSymbol -> Make CompiledMethod) : ∃ function workspace,
    Make.topLevel callee symbol operation ⟨first, numbering⟩ = .ok function workspace
      ∧ workspace.catalog = after.catalog ∧ function.method.lambdas = after.lambdas
      ∧ function.method.callees = after.callees := by
  unfold Make.topLevel
  rw [bind_of_ok typed, plain]
  obtain ⟨method, workspace, compiles, known⟩ := (leads ⟨_, callee⟩).method false _
  exact ⟨_, _, (bind_of_ok compiles).trans rfl, known⟩

end Leads

/-! ## Answers on the way -/

/-- What leads to an answer from every stage had no other answer on the way. -/
theorem Obtains.eq_of_leads {outer : Surroundings} {origin : Catalog} {finished : Body}
    {action : Compile α} (obtained : Obtains outer origin depth finished action other)
    (leads : ∀ stage : Stage, origin.SameRegistered stage.catalog ->
      ∃ after, Leads stage action value after) : other = value := by
  obtain ⟨before, _, sound, _, runs, _⟩ := obtained.run
  obtain ⟨bound, within⟩ := before.emitter.pool.exists_within
  obtain ⟨_, answers⟩ := leads ⟨before.workspace.catalog, before.implicitReceivers, bound,
    before.lambdas, before.callees⟩ sound.origin.toSameRegistered
  obtain ⟨_, same, _⟩ := answers before ⟨rfl, rfl, within, rfl, rfl⟩
  cases runs.symm.trans same
  rfl

end Compile

/-! ## A sample -/

namespace Portrait

open Compile

def types : List TypeDefinition := Sample.types ⟨"Data"⟩ ⟨"Square"⟩

def shape : TypeDefinition := Sample.shape ⟨"Data"⟩

def square : TypeDefinition := Sample.square ⟨"Square"⟩

/-- The virtual method of shapes. -/
def name : MethodEntry :=
  Catalog.methodEntry shape.hash { Sample.virtualText "Name" [] with
    function := some ⟨.ofName "Shape::Name", Sample.describe "shape"⟩ }

def builder : TypeHash := .ofName SystemTypes.textBuilderName

def append : MethodEntry :=
  Catalog.methodEntry builder { SystemTypes.appendFormatted [] with
    function := some ⟨.ofName "InterpolatedTextBuilder::AppendFormatted",
      .appendFormatted false false⟩ }

/-- The method that appends a hole with a text. -/
def appended : MethodEntry :=
  Catalog.closedMethod append (.ofClosedMethod append.hash [.string]) [.string]

def closing (catalog : Catalog) : Catalog :=
  { catalog with closedMethods := catalog.closedMethods.insert appended.hash appended }

def side : MemberSymbol := { name := "Side", containingType := .simple "Square", type := .int }

def one : Operation := .literal { type := some .int, literal := some (.int 1) }

/-- `new Square() { Side = 1 }` -/
def creation : Operation :=
  .objectCreation { type := some (.simple "Square") } (.constructor ⟨3⟩ (.simple "Square")) []
    [.assignment { type := some .int }
      (.member { type := some .int } .field (some (.implicitReceiver {})) side) one]

def called : MethodSymbol :=
  { id := ⟨2⟩, name := "Name", containingType := .simple "Shape", returnType := .string
    isStatic := false }

def call : Operation := .invocation { type := some .string } (some creation) called []

/-- A text with the name of a new square. -/
def body : Operation := .interpolation { type := some .string } [.hole call []]

def symbol : MethodSymbol := { id := ⟨1⟩, name := "Show", containingType := .simple "Portrait" }

def source : Source := .ofDeclarations 1 [.method ⟨symbol, body⟩]

theorem exists_build : ∃ catalog, Catalog.build types = .ok catalog := by
  refine (Catalog.build_ok_iff types).mpr (TypeDefinition.registrable_of_apart ?_ ?_ ?_ ?_ ?_ ?_)
    <;> decide +kernel

theorem lookup_append {catalog : Catalog} (new : catalog.closedMethods[appended.hash]? = none) :
    catalog.lookup (Catalog.closeMethod append [.string]) = (some appended, closing catalog) := by
  have absent : catalog.closedMethods[TypeHash.ofClosedMethod append.hash [.string]]? = none := new
  rw [Catalog.lookup_closeMethod]
  simp only [absent]
  rfl

theorem leads_one (outer : Surroundings) (few : stage.constants < 65536) :
    Leads stage (code outer .kept one) () { stage with constants := stage.constants + 1 } := by
  rw [one, code]
  exact .kept (.emit (.constant few _)) _

section

variable {built : Catalog} (isBuilt : Catalog.build types = .ok built) {stage : Stage}
  (same : built.SameRegistered stage.catalog)

include isBuilt same

theorem getElem?_types {hash : TypeHash} {definition : TypeDefinition}
    (found : TypeDefinition.registered? (SystemTypes.definitions ++ types) hash = some definition) :
    stage.catalog.types[hash]? = some definition.asType := by
  rw [same.types, (Catalog.holds_build isBuilt).types, found]
  rfl

theorem byName? {name : String}
    (listed : name ∈ (SystemTypes.definitions ++ types).map (·.key)) :
    stage.catalog.byName? name = some (.ofName name) := by
  rw [Catalog.byName?, same.names]
  exact Catalog.byName?_of_build isBuilt listed

theorem types_shape : stage.catalog.types[TypeHash.ofName "Shape"]? = some shape.asType :=
  getElem?_types isBuilt same rfl

theorem types_square : stage.catalog.types[TypeHash.ofName "Square"]? = some square.asType :=
  getElem?_types isBuilt same rfl

theorem types_builder : stage.catalog.types[builder]? = some SystemTypes.textBuilder.asType :=
  getElem?_types isBuilt same rfl

theorem methodsNamed_builder (name : String) : stage.catalog.methodsNamed builder name
    = (SystemTypes.textBuilder.asType.methods.filter (·.name = name)).map (Catalog.candidate []) := by
  rw [Catalog.methodsNamed,
    Catalog.hierarchy_of_registered (types_builder isBuilt same) rfl rfl]
  exact List.append_nil _

theorem leads_callTarget (outer : Surroundings) :
    Leads stage (callTarget outer true called 0) (.host name) stage := by
  have selected : Overload.select stage.catalog []
      ((stage.catalog.methodsNamed (.ofName "Shape") "Name").filter (·.method.isStatic == false))
        = some (Catalog.candidate [] name) := by
    rw [Catalog.methodsNamed,
      Catalog.hierarchy_of_registered (types_shape isBuilt same) rfl rfl]
    rfl
  have known := byName? isBuilt same (by decide +kernel : "Shape" ∈ _)
  refine (Leads.lookup (Leads.lookup_simple known)).bind (Leads.bind ?_ (.pure _))
  exact (Leads.pure []).bind (Leads.catalog.bind ((Leads.selectOverload selected _ _).bind (.pure _)))

theorem leads_constructorOf : ∃ hash,
    Leads stage (constructorOf (.constructor ⟨3⟩ (.simple "Square"))) (.ofName "Square", hash)
      stage := by
  obtain ⟨candidate, selected⟩ : ∃ candidate, Overload.select stage.catalog []
      (stage.catalog.constructors (.ofName "Square")) = some candidate := by
    rw [Catalog.constructors_of_registered (types_square isBuilt same) rfl]
    exact ⟨_, rfl⟩
  have known := byName? isBuilt same (by decide +kernel : "Square" ∈ _)
  refine ⟨candidate.method.hash, (Leads.resolve known).bind ?_⟩
  exact (Leads.pure []).bind (Leads.catalog.bind ((Leads.selectOverload selected _ _).bind (.pure _)))

theorem leads_textBuilder : Leads stage textBuilder builder stage := by
  have known := byName? isBuilt same (by decide +kernel : SystemTypes.textBuilderName ∈ _)
  refine Leads.catalog.bind ?_
  rw [known]
  exact .pure _

theorem leads_newText (few : stage.constants + 3 < 65536) (value : Operation) :
    Leads stage (newText builder [.hole value []]) ()
      { stage with constants := stage.constants + 4 } := by
  obtain ⟨candidate, selected⟩ : ∃ candidate, Overload.select stage.catalog [.int, .int]
      (stage.catalog.constructors builder) = some candidate := by
    rw [Catalog.constructors_of_registered (types_builder isBuilt same) rfl]
    exact ⟨_, rfl⟩
  refine Leads.catalog.bind ((Leads.selectOverload selected _ _).bind ?_)
  refine (Leads.sizeOperand (by decide : 0 < 0x80000000) (by omega) _).bind ?_
  refine (Leads.sizeOperand (by decide : 1 < 0x80000000) (by dsimp only; omega) _).bind ?_
  exact .emit (.new (by dsimp only; omega) _ _ _)

theorem leads_takeText (few : stage.constants < 65536) :
    Leads stage (takeText builder) () { stage with constants := stage.constants + 1 } := by
  obtain ⟨candidate, selected⟩ : ∃ candidate, Overload.select stage.catalog []
      (stage.catalog.methodsNamed builder SystemTypes.takeTextName) = some candidate := by
    rw [methodsNamed_builder isBuilt same]
    exact ⟨_, rfl⟩
  refine (Leads.catalog.bind (Leads.selectOverload selected _ _)).bind ?_
  exact .emit (.call few _ _ _)

theorem leads_appendHole (new : stage.catalog.closedMethods[appended.hash]? = none) :
    Leads stage (appendHole builder call []) (appended, ⟨false, none⟩, 1)
      { stage with catalog := closing stage.catalog } := by
  have selected : Overload.select stage.catalog [.string]
      (stage.catalog.methodsNamed builder SystemTypes.appendFormattedName)
        = some (Catalog.candidate [] append) := by
    rw [methodsNamed_builder isBuilt same]
    rfl
  have typed : Leads stage (staticType call) .string stage :=
    .resolve (byName? isBuilt same (by decide +kernel : "string" ∈ _))
  refine typed.bind ((Leads.catalog.bind (Leads.selectOverload selected _ _)).bind ?_)
  exact (Leads.closeMethod (lookup_append new) _ _).bind (.pure _)

theorem leads_writableMember :
    Leads stage (writableMember side) (.field (.ofMember square.hash "Side")) stage := by
  have declares : stage.catalog.declaring? (.ofName "Square") = some (square.asType, []) := by
    rw [Catalog.declaring?, Catalog.get?, types_square isBuilt same]
    rfl
  have found : stage.catalog.findField? (.ofName "Square") side.name
      = square.asType.fields.head? := by
    rw [Catalog.findField?, Catalog.hierarchy, Catalog.ancestry, declares]
    rfl
  have known := byName? isBuilt same (by decide +kernel : "Square" ∈ _)
  refine Leads.bind (?_ : Leads _ _ (.field (.ofMember square.hash "Side")) _) (.pure _)
  refine (Leads.resolve known).bind (Leads.catalog.bind ?_)
  rw [found]
  exact .pure _

theorem leads_creation (outer : Surroundings) (few : stage.constants + 3 < 65536) :
    Leads stage (code outer .kept creation) ()
      { stage with constants := stage.constants + 4 } := by
  obtain ⟨hash, constructed⟩ := leads_constructorOf isBuilt same
  rw [creation, code]
  refine .kept (constructed.bind ((Leads.pure ()).bind ((Leads.argumentCount (by decide)).bind ?_))) _
  refine (Leads.emit (.new (by omega) _ _ _)).bind (.withImplicitReceiver ?_)
  refine (Leads.emit (.setLine _)).bind ((Leads.emit (.opcode .dup)).bind ?_)
  refine Leads.bind (?_ : Leads _ _ () _) (.pure ())
  refine Leads.bind (leads_writableMember isBuilt same)
    ((Leads.requireImplicitReceiver (Nat.succ_ne_zero _)).bind ?_)
  exact (leads_one outer (by dsimp only; omega)).bind (.emit (.withHash (by dsimp only; omega) _ _))

theorem leads_call (outer : Surroundings) (few : stage.constants + 4 < 65536) :
    Leads stage (code outer .kept call) () { stage with constants := stage.constants + 5 } := by
  rw [call, code]
  refine .kept ((leads_callTarget isBuilt same outer).bind
    ((leads_creation isBuilt same outer (by omega)).bind ?_)) _
  refine (Leads.pure ()).bind ((Leads.argumentCount (by decide)).bind ?_)
  exact .emit (.call few _ _ _)

omit same

/-- The hole closes the method that appends it, and nothing else changes the
catalog. -/
theorem leads_body (outer : Surroundings) (new : built.closedMethods[appended.hash]? = none) :
    Leads { catalog := built } (bodyCode outer false body) ()
      { catalog := closing built, constants := 11 } := by
  have same : built.SameRegistered (closing built) := ⟨rfl, rfl, rfl, rfl, rfl⟩
  have text : Leads { catalog := built } (code outer .discarded body) ()
      { catalog := closing built, constants := 11 } := by
    rw [body, code]
    refine .dropped ((leads_textBuilder isBuilt (.refl built)).bind ?_) rfl
    refine (leads_newText isBuilt (.refl built) (by decide : 3 < 65536) call).bind ?_
    refine Leads.bind (?_ : Leads _ _ () { catalog := closing built, constants := 10 })
      (leads_takeText isBuilt same (by decide : 10 < 65536))
    refine (leads_appendHole isBuilt (.refl built) new).bind ((Leads.emit (.opcode .dup)).bind ?_)
    refine (leads_call isBuilt same outer (by decide : 8 < 65536)).bind ((Leads.pure ()).bind ?_)
    exact (Leads.emit (.call (by decide : 9 < 65536) _ _ _)).bind (.pure _)
  exact text.bind (.emit (.opcode .returnVoid))

theorem declaration : ∃ function after,
    Make.declaration source ⟨1⟩ { catalog := built } = .ok function after
      ∧ after.catalog = closing built ∧ function.method.lambdas = []
      ∧ function.method.callees = [] := by
  have registered : built.types[Spin.proc]? = some Spin.procType :=
    @getElem?_types _ isBuilt { catalog := built } (.refl built) _
      (DelegateFamily.procDefinition 0) rfl
  have typed : Make.functionType symbol { catalog := built } = _ :=
    Spin.functionType_plain registered rfl rfl {}
  exact Leads.topLevel typed rfl
    (fun outer => leads_body isBuilt outer ((Catalog.holds_build isBuilt).closedMethods _))
    (Make.callee source _ _)

end

end Portrait
end OpMachine
