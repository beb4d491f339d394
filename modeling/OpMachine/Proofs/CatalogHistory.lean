import OpMachine.Proofs.OverloadChoice
import OpMachine.Proofs.TypeIdentity

namespace OpMachine

/-!
# What was asked of a catalog before

A closed type is made when it is first asked for, and its name is put together
from the names that the catalog shows at that moment.  As long as no two types in
play share a hash, this leaves no trace of earlier questions: an entry is made from
arguments that have theirs already, so two catalogs that know a type and have the
same registered types know the same of it.
-/

open DelegateFamily Descriptor Overload TypeRef

namespace Catalog

/-! ## Entries of closed types -/

/-- No two types in play share a hash.  The registered types are in play, and so
are the arguments of a type in play. -/
structure HashesApart (built : Catalog) (Play : TypeRef -> Prop) : Prop where
  registered : ∀ hash : TypeHash, hash ∈ built.types -> Play (.of hash)
  arguments : ∀ definition arguments, Play (.generic definition arguments) ->
    ∀ argument, argument ∈ arguments -> Play argument
  apart : ∀ first second, Play first -> Play second ->
    first.signatureHash = second.signatureHash -> first = second

/-- A type has an entry if it needs one, being a definition closed over arguments. -/
def Settled (catalog : Catalog) : TypeRef -> Prop
  | .generic definition arguments =>
      TypeHash.ofInstance definition (signatureHashes arguments) ∈ catalog.instances
  | _ => True

/-- An entry of a type in play, put together from settled arguments. -/
def IsEntry (built : Catalog) (Play : TypeRef -> Prop) (catalog : Catalog) (hash : TypeHash)
    (type : HostType) : Prop :=
  ∃ definition arguments host,
    Play (.generic definition arguments) ∧ hash = .ofInstance definition (signatureHashes arguments)
      ∧ built.types[definition]? = some host ∧ host.traits.isGenericDefinition = true
      ∧ host.genericParameters.length = arguments.length
      ∧ type = catalog.instanceType host hash (signatureHashes arguments)
      ∧ ∀ argument, argument ∈ arguments -> Settled catalog argument

/-- All entries are those of types in play. -/
structure Composed (built : Catalog) (Play : TypeRef -> Prop) (catalog : Catalog) : Prop where
  same : built.SameRegistered catalog
  entries : ∀ (hash : TypeHash) (type : HostType), catalog.instances[hash]? = some type ->
    IsEntry built Play catalog hash type

section

variable {built catalog later : Catalog} {Play : TypeRef -> Prop} {type : TypeRef}
  {definition : TypeHash} {arguments : List TypeRef}

theorem Settled.grow (settled : Settled catalog type) (grows : catalog.Grows later) :
    Settled later type := by
  cases type with
  | generic =>
    have found := Std.HashMap.getElem?_eq_some_getElem settled
    exact (Std.HashMap.getElem?_eq_some_iff.mp (grows.instances _ _ found)).1
  | _ => trivial

theorem instanceType_congr (host : HostType) (hash : TypeHash)
    (known : ∀ argument, argument ∈ arguments ->
      catalog.get? argument.signatureHash = later.get? argument.signatureHash) :
    catalog.instanceType host hash (signatureHashes arguments)
      = later.instanceType host hash (signatureHashes arguments) := by
  have names : (signatureHashes arguments).map catalog.displayName
      = (signatureHashes arguments).map later.displayName := by
    rw [signatureHashes_eq_map, List.map_map, List.map_map]
    refine List.map_congr_left fun argument member => ?_
    simp only [Function.comp, displayName, known argument member]
  simp only [instanceType, instanceText, names]

variable (apart : built.HashesApart Play)

include apart

theorem Composed.not_mem (composed : Composed built Play catalog) (inPlay : Play type)
    (notGeneric : ∀ definition arguments, type ≠ .generic definition arguments) :
    catalog.instances[type.signatureHash]? = none := by
  cases found : catalog.instances[type.signatureHash]? with
  | none => rfl
  | some =>
    obtain ⟨_, _, _, closing, isHash, _⟩ := composed.entries _ _ found
    exact absurd (apart.apart _ _ inPlay closing isHash) (notGeneric _ _)

/-- Two catalogs know the same of a type that is settled in both.  The induction is
on the size of the type: its entry in either is made from the arguments. -/
theorem Composed.get?_eq (onOne : Composed built Play one) (onOther : Composed built Play other)
    (inPlay : Play type) (inOne : Settled one type) (inOther : Settled other type) :
    one.get? type.signatureHash = other.get? type.signatureHash := by
  induction size : sizeOf type using Nat.strongRecOn generalizing type with | ind _ ih => ?_
  subst size
  unfold get?
  rw [onOne.same.types, onOther.same.types]
  cases type with
  | generic definition arguments =>
    have found := Std.HashMap.getElem?_eq_some_getElem inOne
    have isThere := Std.HashMap.getElem?_eq_some_getElem inOther
    obtain ⟨_, _, host, closing, isHash, registered, _, _, entry, settled⟩ :=
      onOne.entries _ _ found
    cases apart.apart (.generic definition arguments) _ inPlay closing isHash
    obtain ⟨_, _, _, closing, isHash, again, _, _, otherEntry, others⟩ :=
      onOther.entries _ _ isThere
    cases apart.apart (.generic definition arguments) _ inPlay closing isHash
    cases registered.symm.trans again
    rw [signatureHash, found, isThere, entry, otherEntry,
      instanceType_congr host _ fun argument member =>
      ih _ ?_ (apart.arguments _ _ inPlay argument member) (settled argument member)
        (others argument member) rfl]
    have smaller := List.sizeOf_lt_of_mem member
    simp only [generic.sizeOf_spec]
    omega
  | _ => rw [onOne.not_mem apart inPlay (by simp), onOther.not_mem apart inPlay (by simp)]

/-- Nothing else becomes known of a settled type when a type in play is closed. -/
theorem Settled.get?_withInstance (settled : Settled catalog type) (inPlay : Play type)
    (closing : Play (.generic definition arguments)) (host : HostType) (hashes : List TypeHash) :
    catalog.get? type.signatureHash = (catalog.withInstance host
      (.ofInstance definition (signatureHashes arguments)) hashes).get? type.signatureHash := by
  unfold withInstance
  split
  · rfl
  · rename_i free
    have different : TypeHash.ofInstance definition (signatureHashes arguments)
        ≠ type.signatureHash := by
      intro same
      cases apart.apart (.generic definition arguments) type closing inPlay same
      exact free settled
    unfold get?
    rw [Std.HashMap.getElem?_insert, beq_false_of_ne different]
    rfl

end

/-! ## Requests -/

section

variable {α β : Type} (built : Catalog) (Play : TypeRef -> Prop)

/-- A lookup that leaves all entries composed and has good answers. -/
def Keeping (catalog : Catalog) (action : Lookup α) (Good : α -> Catalog -> Prop) : Prop :=
  Composed built Play (catalog.lookup action).2 ∧ catalog.Grows (catalog.lookup action).2
    ∧ ∀ answer, (catalog.lookup action).1 = some answer ->
      Good answer (catalog.lookup action).2

/-- A hash is that of a type that is settled. -/
def Knows (type : TypeRef) (hash : TypeHash) (catalog : Catalog) : Prop :=
  type.signatureHash = hash ∧ Settled catalog type

variable {built Play} {catalog : Catalog}

theorem keeping_failure (composed : Composed built Play catalog) :
    Keeping built Play catalog failure Good :=
  ⟨composed, .refl catalog, nofun⟩

theorem keeping_pure (composed : Composed built Play catalog) (good : Good answer catalog) :
    Keeping built Play catalog (pure answer) Good :=
  ⟨composed, .refl catalog, fun _ answers => Option.some.inj answers ▸ good⟩

theorem Keeping.bind (first : Keeping built Play catalog action Good)
    (second : ∀ answer later, catalog.Grows later -> Composed built Play later ->
      Good answer later -> Keeping built Play later (next answer) Better) :
    Keeping built Play catalog (action >>= next) Better := by
  obtain ⟨composed, grows, good⟩ := first
  unfold Keeping
  rw [Lookup.lookup_bind]
  rcases outcome : catalog.lookup action with ⟨answer, later⟩
  rw [outcome] at composed grows good
  cases answer with
  | none => exact ⟨composed, grows, nofun⟩
  | some answer =>
    obtain ⟨kept, further, better⟩ := second answer later grows composed (good answer rfl)
    exact ⟨kept, grows.trans further, better⟩

theorem Keeping.and (isFact : fact) (keeps : Keeping built Play catalog action Good) :
    Keeping built Play catalog action fun answer later => Good answer later ∧ fact :=
  ⟨keeps.1, keeps.2.1, fun answer answers => ⟨keeps.2.2 answer answers, isFact⟩⟩

variable (apart : built.HashesApart Play)

section

variable {definition : TypeHash} {arguments : List TypeRef}
  (inPlay : Play (.generic definition arguments))
  (settled : ∀ argument, argument ∈ arguments -> Settled catalog argument)

include apart inPlay settled

theorem Composed.withInstance (composed : Composed built Play catalog)
    (registered : built.types[definition]? = some host)
    (isGeneric : host.traits.isGenericDefinition = true)
    (isArity : host.genericParameters.length = arguments.length) :
    Composed built Play (catalog.withInstance host
      (.ofInstance definition (signatureHashes arguments))
      (signatureHashes arguments)) := by
  have grows := grows_withInstance catalog host
    (.ofInstance definition (signatureHashes arguments)) (signatureHashes arguments)
  refine ⟨composed.same.trans grows.toSameRegistered, fun hash type found => ?_⟩
  have entry : IsEntry built Play catalog hash type := by
    rcases instances_withInstance found with earlier | ⟨rfl, rfl⟩
    · exact composed.entries hash type earlier
    · exact ⟨definition, arguments, host, inPlay, rfl, registered, isGeneric, isArity, rfl, settled⟩
  obtain ⟨_, _, host, closing, isHash, registered, isGeneric, isArity, rfl, settled⟩ := entry
  refine ⟨_, _, host, closing, isHash, registered, isGeneric, isArity, ?_,
    fun argument member => (settled argument member).grow grows⟩
  exact instanceType_congr host hash fun argument member =>
    (settled argument member).get?_withInstance apart (apart.arguments _ _ closing argument member)
      inPlay _ _

/-- Closing a definition over types that are settled settles the closed type. -/
theorem keeping_closeGeneric (composed : Composed built Play catalog)
    (areHashes : signatureHashes arguments = hashes) :
    Keeping built Play catalog (closeGeneric definition hashes)
      (Knows (.generic definition arguments)) := by
  subst areHashes
  unfold Keeping
  rw [lookup_closeGeneric]
  split
  · exact keeping_failure composed
  · rename_i host registered
    split
    · rename_i fits
      obtain ⟨isGeneric, isArity⟩ := Bool.and_eq_true_iff.mp fits
      rw [composed.same.types] at registered
      rw [beq_iff_eq, signatureHashes_eq_map, List.length_map] at isArity
      refine ⟨composed.withInstance apart inPlay settled registered isGeneric isArity,
        grows_withInstance .., fun hash answers => ⟨Option.some.inj answers, ?_⟩⟩
      simp only [Settled, withInstance]
      split
      · assumption
      · exact Std.HashMap.mem_insert_self
    · exact keeping_failure composed

end

variable {definitions : List TypeDefinition}

theorem knows_named (catalog : Catalog) (name : String) :
    Knows (.named name) (.ofName name) catalog := by
  unfold TypeRef.named
  split
  · rename_i isVoid
    rw [isVoid]
    exact ⟨rfl, trivial⟩
  · exact ⟨rfl, trivial⟩

mutual

/-- A descriptor is resolved to a type that is settled from then on. -/
theorem keeping_resolve (apart : built.HashesApart Play) (holds : built.Holds definitions) :
    ∀ (descriptor : Descriptor) {catalog : Catalog}, Composed built Play catalog ->
      Play descriptor.typeRef ->
        Keeping built Play catalog (resolve descriptor) (Knows descriptor.typeRef)
  | .void, catalog, composed, inPlay => by
      rw [resolve]
      exact keeping_pure composed ⟨rfl, trivial⟩
  | .parameter _, catalog, composed, inPlay => by
      rw [resolve]
      exact keeping_failure composed
  | .named name arguments, catalog, composed, inPlay => by
      rw [typeRef] at inPlay ⊢
      unfold Keeping
      rw [resolve, Lookup.lookup_get_bind, byName?]
      split
      · exact keeping_failure composed
      · rename_i type isNamed
        rw [composed.same.names] at isNamed
        cases holds.names _ _ isNamed
        split
        · rename_i isEmpty
          cases List.isEmpty_iff.mp isEmpty
          exact keeping_pure composed (knows_named catalog name)
        · rename_i notEmpty
          rw [if_neg notEmpty, applied, length_typeRefs] at inPlay
          rw [applied, length_typeRefs]
          refine (keeping_resolveAll apart holds arguments composed
            (apart.arguments _ _ inPlay)).bind fun hashes later _ composed known => ?_
          exact keeping_closeGeneric apart inPlay known.2 composed known.1
  | .array element rank, catalog, composed, inPlay => by
      rw [typeRef] at inPlay ⊢
      rw [resolve]
      refine (keeping_resolve apart holds element composed
        (apart.arguments _ _ inPlay _ (.head _))).bind
        fun hash later _ composed known => ?_
      unfold Keeping
      rw [closeArray, Lookup.lookup_get_bind, byName?]
      split
      · rename_i definition isNamed
        rw [composed.same.names] at isNamed
        cases holds.names _ _ isNamed
        refine keeping_closeGeneric apart inPlay (List.forall_mem_singleton.mpr known.2) composed ?_
        rw [signatureHashes, known.1, signatureHashes]
      · exact keeping_failure composed

theorem keeping_resolveAll (apart : built.HashesApart Play) (holds : built.Holds definitions) :
    ∀ (descriptors : List Descriptor) {catalog : Catalog}, Composed built Play catalog ->
      (∀ type, type ∈ typeRefs descriptors -> Play type) ->
      Keeping built Play catalog (resolveAll descriptors) fun hashes later =>
        signatureHashes (typeRefs descriptors) = hashes
          ∧ ∀ type, type ∈ typeRefs descriptors -> Settled later type
  | [], catalog, composed, inPlay => by
      rw [resolveAll]
      exact keeping_pure composed ⟨rfl, fun _ member => absurd member List.not_mem_nil⟩
  | head :: tail, catalog, composed, inPlay => by
      obtain ⟨here, inTail⟩ := List.forall_mem_cons.mp inPlay
      rw [resolveAll]
      refine (keeping_resolve apart holds head composed here).bind
        fun hash middle _ composed known => ?_
      refine (keeping_resolveAll apart holds tail composed inTail).bind
        fun hashes later grows composed others => keeping_pure composed ⟨?_, ?_⟩
      · rw [typeRefs, signatureHashes, known.1, others.1]
      · exact List.forall_mem_cons.mpr ⟨known.2.grow grows, others.2⟩

end

/-! ## Histories -/

/-- A question to a catalog. -/
inductive Request where
  | type (descriptor : Descriptor)
  | function (method : MethodSymbol)

/-- The type that is asked for; that of a function is written with the name of its
family of delegate types. -/
def Request.descriptor : Request -> Descriptor
  | .type descriptor => descriptor
  | .function method =>
      if method.returnsValue then
        .named funcName (method.parameters.map (·.type) ++ [method.returnType])
      else .named procName (method.parameters.map (·.type))

def Request.ask : Request -> Lookup TypeHash
  | .type descriptor => resolve descriptor
  | .function method => functionType method

def after (catalog : Catalog) (requests : List Request) : Catalog :=
  requests.foldl (fun catalog request => (catalog.lookup request.ask).2) catalog

include apart

theorem keeping_functionType (holds : built.Holds definitions) (method : MethodSymbol)
    (composed : Composed built Play catalog)
    (inPlay : Play (Request.function method).descriptor.typeRef) :
    Keeping built Play catalog (functionType method) fun hash later =>
      Knows (Request.function method).descriptor.typeRef hash later
        ∧ (method.parameters.map (·.type)).length ≤ maximumArity := by
  unfold functionType
  simp only [Request.descriptor] at inPlay ⊢
  generalize method.parameters.map (·.type) = types, method.returnsValue = returns at inPlay ⊢
  have arity {hashes : List TypeHash} (areHashes : signatureHashes (typeRefs types) = hashes) :
      hashes.length = types.length := by
    rw [← areHashes, signatureHashes_eq_map, List.length_map, length_typeRefs]
  cases returns with
  | true =>
    simp only [if_true] at inPlay ⊢
    rw [typeRef, if_neg (by simp), applied, length_typeRefs,
      typeRefs_eq_map, List.map_append, ← typeRefs_eq_map] at inPlay ⊢
    obtain ⟨inTypes, inResult⟩ := List.forall_mem_append.mp (apart.arguments _ _ inPlay)
    refine (keeping_resolveAll apart holds types composed inTypes).bind
      fun hashes middle _ composed known => ?_
    refine (keeping_resolve apart holds _ composed (List.forall_mem_singleton.mp inResult)).bind
      fun result later grows composed isResult => ?_
    split
    · rename_i definition isDefinition
      unfold func? at isDefinition
      split at isDefinition <;> cases isDefinition
      rename_i few
      rw [List.length_append, ← arity known.1] at inPlay ⊢
      refine .and few (keeping_closeGeneric apart inPlay (List.forall_mem_append.mpr
        ⟨fun type member => (known.2 type member).grow grows,
          List.forall_mem_singleton.mpr isResult.2⟩) composed ?_)
      rw [signatureHashes_eq_map, List.map_append, ← signatureHashes_eq_map, known.1, ← isResult.1]
      rfl
    · exact keeping_failure composed
  | false =>
    simp only [Bool.false_eq_true, if_false] at inPlay ⊢
    cases types with
    | nil =>
      rw [typeRef, if_pos List.isEmpty_nil]
      exact keeping_pure composed ⟨knows_named catalog _, Nat.zero_le _⟩
    | cons head tail =>
      rw [typeRef, applied, length_typeRefs] at inPlay ⊢
      refine (keeping_resolveAll apart holds _ composed (apart.arguments _ _ inPlay)).bind
        fun hashes later _ composed known => ?_
      split
      · rename_i definition isDefinition
        unfold proc? at isDefinition
        split at isDefinition <;> cases isDefinition
        rename_i few
        rw [← arity known.1] at inPlay ⊢
        rw [if_neg (arity known.1 ▸ Nat.succ_ne_zero _)]
        exact .and few (keeping_closeGeneric apart inPlay known.2 composed known.1)
      · exact keeping_failure composed

theorem composed_after (holds : built.Holds definitions) (requests : List Request)
    (composed : Composed built Play catalog)
    (inPlay : ∀ request, request ∈ requests -> Play request.descriptor.typeRef) :
    Composed built Play (catalog.after requests) := by
  induction requests generalizing catalog with
  | nil => exact composed
  | cons request rest ih =>
    obtain ⟨here, later⟩ := List.forall_mem_cons.mp inPlay
    refine ih ?_ later
    cases request with
    | type descriptor => exact (keeping_resolve apart holds descriptor composed here).1
    | function method => exact (keeping_functionType apart holds method composed here).1

omit apart

theorem asked_after (catalog : Catalog) (requests : List Request) :
    catalog.Asked (catalog.after requests) := by
  induction requests generalizing catalog with
  | nil => exact .nothing
  | cons request rest ih =>
    refine Asked.trans ?_ (ih _)
    cases request with
    | type descriptor => exact (regular_resolve descriptor).closes catalog
    | function method => exact (regular_functionType method).closes catalog

end

/-! ## Two histories -/

section

variable {one other : Catalog} (hasBases : one.HasBases)

include hasBases

/-- The signature of a delegate type is that of its definition, which is
registered. -/
theorem delegateSignature_eq (same : one.SameRegistered other) {hash : TypeHash}
    (isEntry : one.get? hash = other.get? hash) :
    (one.lookup (delegateSignature hash)).1 = (other.lookup (delegateSignature hash)).1 := by
  have declares : one.declaring? hash = other.declaring? hash := by
    unfold declaring?
    rw [← isEntry]
    cases found : one.get? hash with
    | none => rfl
    | some type =>
      cases isDefinition : type.definition with
      | none => simp only [isDefinition]
      | some definition =>
        have member : definition ∈ one.types := hasBases.mem_of_peel?
          (Option.bind_eq_some_iff.mpr ⟨type, found, isDefinition⟩)
        simp only [isDefinition, get?, same.types, Std.HashMap.getElem?_eq_some_getElem member]
  unfold delegateSignature
  rw [Lookup.lookup_get_bind, declares]
  refine Lookup.Regular.stable ?_ other one same.symm
  split
  · exact .failure
  · split
    · exact .failure
    · refine (regular_materializeAll _).bind fun parameters => ?_
      dsimp only
      split
      · exact .pure _
      · exact (regular_materialize _).bind fun _ => .pure _

/-- A distance depends on the definitions of the requested types only. -/
theorem distance_eq (otherBases : other.HasBases)
    (peels : ∀ type, type ∈ requested -> one.peel? type = other.peel? type)
    (parameters : List TypeRef) :
    distance one requested parameters = distance other requested parameters := by
  have ranks : ranks? one requested parameters = ranks? other requested parameters := by
    induction requested generalizing parameters with
    | nil => cases parameters <;> rfl
    | cons head tail ih =>
      cases parameters with
      | nil => rfl
      | cons parameter rest =>
        obtain ⟨here, later⟩ := List.forall_mem_cons.mp peels
        have rank : rank? one head parameter = rank? other head parameter := by
          cases parameter <;> simp only [rank?, here]
        rw [ranks?, ranks?, rank, ih later]
  rw [distance, distance, show score one _ _ = _ from scoreFrom_eq hasBases _ _ 0,
    show score other _ _ = _ from scoreFrom_eq otherBases _ _ 0, ranks]

end

/-- Nothing that was asked before can be seen, as long as no two types in play
share a hash.  After any two histories a descriptor has the same answer, and the
entry of its type, its name and the signature of it are the same; so are the
distances of types that are resolved.  In between, entries are never changed, and
each of them stands under the hash of a generic definition that is registered and
of as many arguments as it has parameters. -/
theorem history_untraceable {definitions : List TypeDefinition} {built : Catalog}
    {Play : TypeRef -> Prop} (isBuilt : build definitions = .ok built)
    (apart : built.HashesApart Play) {first second : List Request}
    (inFirst : ∀ request, request ∈ first -> Play request.descriptor.typeRef)
    (inSecond : ∀ request, request ∈ second -> Play request.descriptor.typeRef) :
    (∀ descriptor,
        let one := (built.after first).lookup (resolve descriptor)
        let other := (built.after second).lookup (resolve descriptor)
        one.1 = other.1 ∧ (Play descriptor.typeRef -> ∀ hash, one.1 = some hash ->
          one.2.get? hash = other.2.get? hash
            ∧ one.2.displayName hash = other.2.displayName hash
            ∧ one.2.admitsNull hash = other.2.admitsNull hash
            ∧ (one.2.lookup (delegateSignature hash)).1
              = (other.2.lookup (delegateSignature hash)).1))
      ∧ (∀ descriptors, (∀ type, type ∈ Descriptor.typeRefs descriptors -> Play type) ->
        let one := (built.after first).lookup (resolveAll descriptors)
        let other := (built.after second).lookup (resolveAll descriptors)
        one.1 = other.1 ∧ ∀ requested, one.1 = some requested -> ∀ parameters,
          Overload.distance one.2 requested parameters
            = Overload.distance other.2 requested parameters)
      ∧ (∀ front back, first = front ++ back ->
        (built.after front).Grows (built.after first))
      ∧ built.SameRegistered (built.after first)
      ∧ ∀ (hash : TypeHash) (type : HostType),
        (built.after first).instances[hash]? = some type ->
          ∃ definition host, type.definition = some definition
            ∧ hash = .ofInstance definition type.typeArguments
            ∧ built.types[definition]? = some host ∧ host.traits.isGenericDefinition = true
            ∧ host.genericParameters.length = type.typeArguments.length := by
  have holds := holds_build isBuilt
  have hasBases := hasBases_build isBuilt
  have empty : Composed built Play built :=
    ⟨.refl built, fun hash type found => by rw [holds.instances] at found; cases found⟩
  have onFirst := composed_after apart holds first empty inFirst
  have onSecond := composed_after apart holds second empty inSecond
  have same := onFirst.same.symm.trans onSecond.same
  have resolving (requests : List Request) (descriptors : List Descriptor) :
      ((built.after requests).lookup (resolveAll descriptors)).2.HasBases :=
    hasBases.asked ((asked_after built requests).trans ((regular_resolveAll descriptors).closes _))
  refine ⟨fun descriptor => ⟨((regular_resolve descriptor).stable _ _ same).symm,
    fun inPlay hash answers => ?_⟩,
    fun descriptors inPlay => ⟨((regular_resolveAll descriptors).stable _ _ same).symm,
      fun requested answers => ?_⟩, ?_, onFirst.same, ?_⟩
  · obtain ⟨composed, _, good⟩ := keeping_resolve apart holds descriptor onFirst inPlay
    obtain ⟨others, _, otherGood⟩ := keeping_resolve apart holds descriptor onSecond inPlay
    obtain ⟨rfl, settled⟩ := good hash answers
    have known := composed.get?_eq apart others inPlay settled
      (otherGood _ (((regular_resolve descriptor).stable _ _ same).trans answers)).2
    refine ⟨known, ?_, ?_, delegateSignature_eq (hasBases.asked ((asked_after _ _).trans
      ((regular_resolve descriptor).closes _))) (composed.same.symm.trans others.same) known⟩
    · simp only [displayName, known]
    · simp only [admitsNull, known]
  · obtain ⟨composed, _, good⟩ := keeping_resolveAll apart holds descriptors onFirst inPlay
    obtain ⟨others, _, otherGood⟩ := keeping_resolveAll apart holds descriptors onSecond inPlay
    obtain ⟨rfl, settled⟩ := good requested answers
    have otherSettled := (otherGood _
      (((regular_resolveAll descriptors).stable _ _ same).trans answers)).2
    refine distance_eq (resolving first _) (resolving second _) fun hash member => ?_
    rw [TypeRef.signatureHashes_eq_map] at member
    obtain ⟨type, isType, rfl⟩ := List.mem_map.mp member
    exact congrArg (· >>= HostType.definition) (composed.get?_eq apart others (inPlay type isType)
      (settled type isType) (otherSettled type isType))
  · rintro front back rfl
    rw [after, after, List.foldl_append]
    exact (asked_after _ back).grows
  · intro hash type found
    obtain ⟨definition, arguments, host, _, isHash, registered, isGeneric, isArity, rfl, _⟩ :=
      onFirst.entries hash type found
    refine ⟨definition, host, congrArg some (hasBases.hash definition host registered), isHash,
      registered, isGeneric, isArity.trans ?_⟩
    change _ = (TypeRef.signatureHashes arguments).length
    rw [TypeRef.signatureHashes_eq_map, List.length_map]

/-- Arrays of arrays of integers, and what they are made of. -/
def nestedArrays : List TypeRef :=
  .generic (.arrayDefinition 1) [.generic (.arrayDefinition 1) [.int]]
    :: .generic (.arrayDefinition 1) [.int]
    :: SystemTypes.definitions.map (TypeRef.of ·.hash)

theorem hashesApart_nestedArrays (isBuilt : build [] = .ok built) :
    built.HashesApart (· ∈ nestedArrays) where
  registered := by
    intro hash member
    have found := Std.HashMap.getElem?_eq_some_getElem member
    rw [(holds_build isBuilt).types] at found
    obtain ⟨definition, isDefinition, _⟩ := Option.map_eq_some_iff.mp found
    refine .tail _ (.tail _ (List.mem_map.mpr ⟨definition, ?_, ?_⟩))
    · exact TypeDefinition.mem_of_registered? isDefinition
    · rw [TypeDefinition.hash_of_registered? isDefinition]
  arguments := by
    have isSystem : .ofPrimitive "int" true ∈ SystemTypes.definitions := by
      simp [SystemTypes.definitions, SystemTypes.primitives]
    intro _ _ member
    rcases List.mem_cons.mp member with isOuter | later
    · cases isOuter
      exact List.forall_mem_singleton.mpr (by simp [nestedArrays])
    · rcases List.mem_cons.mp later with isInner | isOf
      · cases isInner
        exact List.forall_mem_singleton.mpr (.tail _ (.tail _
          (List.mem_map.mpr ⟨.ofPrimitive "int" true, isSystem, rfl⟩)))
      · obtain ⟨_, _, isGeneric⟩ := List.mem_map.mp isOf
        unfold TypeRef.of at isGeneric
        split at isGeneric <;> cases isGeneric
  apart := by
    have distinct : (nestedArrays.map signatureHash).Nodup := by decide +kernel
    exact fun _ _ first second => List.inj_on_of_nodup_map distinct first second

/-- Whether the inner arrays were asked for before does not show. -/
theorem nestedArrays_untraceable : ∃ built hash, build [] = .ok built
    ∧ let nested := .array (.array .int 1) 1
      let one := (built.after [.type (.array .int 1)]).lookup (resolve nested)
      let other := (built.after []).lookup (resolve nested)
      one.1 = some hash ∧ other.1 = some hash
        ∧ one.2.displayName hash = other.2.displayName hash := by
  obtain ⟨built, isBuilt⟩ := exists_build_nil
  have inFirst : ∀ request, request ∈ [Request.type (.array .int 1)] ->
      request.descriptor.typeRef ∈ nestedArrays :=
    List.forall_mem_singleton.mpr (List.mem_cons_of_mem _ List.mem_cons_self)
  have inner := denoted?_array isBuilt 1 rfl rfl (denoted?_int isBuilt)
  have answers := denoted?_array isBuilt 1 rfl rfl inner
  have untraceable := (history_untraceable isBuilt (hashesApart_nestedArrays isBuilt) inFirst
    (List.forall_mem_nil _)).1 (.array (.array .int 1) 1)
  have first := untraceable.1.trans answers
  exact ⟨built, _, isBuilt, first, answers, (untraceable.2 List.mem_cons_self _ first).2.1⟩

end Catalog
end OpMachine
