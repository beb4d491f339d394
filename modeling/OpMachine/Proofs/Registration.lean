import Mathlib.Data.List.Nodup
import OpMachine.Proofs.CatalogGrowth

namespace OpMachine

/-!
# When registration succeeds

A catalog keeps the members of all types in tables that the types share, each
member under its hash.  Registration therefore succeeds exactly if keys are
distinct, bases are registered, and the *hashes* of all methods, of all fields
and of all properties are distinct across the types.  Distinct members of one
type are necessary for that.  They are not sufficient: the hash of a member joins
the digest of its owner with the digest of its own name by an exclusive or, which
does not remember which of the two was the owner, so a type `A` with a member `B`
meets a type `B` with a member `A`.

What a catalog holds is read off in a `Directory`, and `Takes` says of each step
of registration on which directories it succeeds and which directory it leaves.
-/

/-! ## Hashes of the members of a definition -/

open TypeHash

namespace TypeDefinition

variable (definition : TypeDefinition)

/-- What tells the constructors of a type apart. -/
def constructorSignatures : List (List TypeHash) :=
  definition.constructors.map fun constructor => constructor.parameters.map TypeRef.signatureHash

/-- What tells the methods of a type apart. -/
def methodSignatures : List (String × List TypeHash) :=
  definition.methods.map fun method =>
    (method.name, method.parameters.map TypeRef.signatureHash)

def constructorHashes : List TypeHash :=
  definition.constructorSignatures.map (ofConstructor definition.hash)

def methodHashes : List TypeHash :=
  definition.methodSignatures.map fun (name, parameters) =>
    ofMethod definition.hash name parameters

/-- The hashes of everything that a definition lets be called. -/
def calledHashes : List TypeHash :=
  definition.constructorHashes ++ definition.methodHashes

def fieldHashes : List TypeHash :=
  (definition.fields.map (·.name)).map (ofMember definition.hash)

def propertyHashes : List TypeHash :=
  (definition.properties.map (·.name)).map (ofMember definition.hash)

variable {definition : TypeDefinition} {definitions : List TypeDefinition}

theorem mem_calledHashes (member : method ∈ definition.methods) :
    ofMethod definition.hash method.name (method.parameters.map TypeRef.signatureHash)
      ∈ definition.calledHashes :=
  List.mem_append_right _ (List.mem_map.mpr ⟨_, List.mem_map_of_mem member, rfl⟩)

theorem mem_fieldHashes (member : field ∈ definition.fields) :
    ofMember definition.hash field.name ∈ definition.fieldHashes :=
  List.mem_map.mpr ⟨_, List.mem_map_of_mem member, rfl⟩

/-- The members of one type are told apart by names and signatures. -/
structure HasDistinctMembers (definition : TypeDefinition) : Prop where
  constructors : definition.constructorSignatures.Nodup
  methods : definition.methodSignatures.Nodup
  members : (definition.fields.map (·.name) ++ definition.properties.map (·.name)).Nodup

/-- Definitions whose keys, bases and hashes let them be registered in order.  A
property is compared with the fields of its own type and of the types before. -/
structure Registrable (definitions : List TypeDefinition) : Prop where
  keys : (definitions.map key).Nodup
  bases : ∀ definition, definition ∈ definitions -> ∀ base,
    definition.base = some base -> base ∈ definitions.map key
  called : (definitions.flatMap calledHashes).Nodup
  fields : (definitions.flatMap fieldHashes).Nodup
  properties : (definitions.flatMap propertyHashes).Nodup
  own : ∀ definition, definition ∈ definitions ->
    definition.fieldHashes.Disjoint definition.propertyHashes
  earlier : definitions.Pairwise fun first second => first.fieldHashes.Disjoint second.propertyHashes

/-- Definitions are registrable if no field has the hash of any property. -/
theorem registrable_of_apart (keys : (definitions.map key).Nodup)
    (bases : ∀ definition, definition ∈ definitions -> ∀ base, base ∈ definition.base ->
      base ∈ definitions.map key)
    (called : (definitions.flatMap calledHashes).Nodup)
    (fields : (definitions.flatMap fieldHashes).Nodup)
    (properties : (definitions.flatMap propertyHashes).Nodup)
    (apart : ∀ hash, hash ∈ definitions.flatMap fieldHashes ->
      ¬ hash ∈ definitions.flatMap propertyHashes) : Registrable definitions := by
  have disjoint {first second : TypeDefinition} (isFirst : first ∈ definitions)
      (isSecond : second ∈ definitions) : first.fieldHashes.Disjoint second.propertyHashes :=
    fun hash inFirst inSecond => apart hash (List.mem_flatMap.mpr ⟨first, isFirst, inFirst⟩)
      (List.mem_flatMap.mpr ⟨second, isSecond, inSecond⟩)
  refine ⟨keys, bases, called, fields, properties, fun _ member => disjoint member member, ?_⟩
  refine List.Pairwise.imp_of_mem (R := fun _ _ => True) (fun isFirst isSecond _ => ?_)
    (List.pairwise_of_forall fun _ _ => trivial)
  exact disjoint isFirst isSecond

theorem Registrable.hasDistinctMembers (registrable : Registrable definitions)
    (member : definition ∈ definitions) : definition.HasDistinctMembers := by
  have called := (List.nodup_flatMap.mp registrable.called).1 definition member
  have fields := (List.nodup_flatMap.mp registrable.fields).1 definition member
  have properties := (List.nodup_flatMap.mp registrable.properties).1 definition member
  obtain ⟨constructors, methods, _⟩ := List.nodup_append'.mp called
  refine ⟨.of_map _ constructors, .of_map _ methods, .of_map (ofMember definition.hash) ?_⟩
  rw [List.map_append]
  exact List.nodup_append'.mpr ⟨fields, properties, registrable.own definition member⟩

end TypeDefinition

/-- A member does not remember which of two names was the owner. -/
theorem TypeHash.ofMember_swap (first second : String) :
    ofMember (ofName first) second = ofMember (ofName second) first := by
  simp only [ofMember, ofName, UInt64.xor_assoc, UInt64.xor_comm (Digest.ofText first)]

theorem TypeHash.ofMethod_swap (first second : String) (parameters : List TypeHash) :
    ofMethod (ofName first) second parameters = ofMethod (ofName second) first parameters := by
  simp only [ofMethod, ofName, UInt64.xor_assoc, UInt64.xor_comm (Digest.ofText first)]

/-! ## Directories -/

/-- The keys and hashes that a catalog holds. -/
structure Directory where
  keys : List String := []
  called : List TypeHash := []
  fields : List TypeHash := []
  properties : List TypeHash := []

/-- Keys that differ from each other and from those that are taken. -/
def Directory.New {Key : Type} (taken keys : List Key) : Prop :=
  keys.Nodup ∧ ∀ key, key ∈ keys -> ¬ key ∈ taken

theorem Directory.new_append {Key : Type} (taken first second : List Key) :
    New taken (first ++ second) ↔ New taken first ∧ New (taken ++ first) second := by
  simp only [New, List.nodup_append', List.mem_append, List.Disjoint]
  constructor
  · rintro ⟨⟨inFirst, inSecond, apart⟩, free⟩
    exact ⟨⟨inFirst, fun key member => free key (.inl member)⟩, inSecond, fun key member either =>
      either.elim (free key (.inr member)) fun earlier => apart earlier member⟩
  · rintro ⟨⟨inFirst, freeFirst⟩, inSecond, freeSecond⟩
    refine ⟨⟨inFirst, inSecond, fun _ earlier member => freeSecond _ member (.inr earlier)⟩, ?_⟩
    rintro key (member | member)
    · exact freeFirst key member
    · exact fun isTaken => freeSecond key member (.inl isTaken)

open TypeDefinition

namespace Catalog

/-- A catalog holds what a directory lists. -/
structure Lists (catalog : Catalog) (directory : Directory) : Prop where
  keys : ∀ key, catalog.names.contains key = true ↔ key ∈ directory.keys
  called : ∀ hash, catalog.methods.contains hash = true ↔ hash ∈ directory.called
  fields : ∀ hash, catalog.fields.contains hash = true ↔ hash ∈ directory.fields
  properties : ∀ hash, catalog.properties.contains hash = true ↔ hash ∈ directory.properties

theorem lists_empty : Lists {} {} := by
  constructor <;> intro key <;> simp

/-- A step of registration succeeds exactly on some directories, and what it
leaves is known. -/
def Takes (step : Catalog -> Except RegistrationError Catalog) (Fresh : Directory -> Prop)
    (next : Directory -> Directory) : Prop :=
  ∀ catalog directory, catalog.Lists directory ->
    (Fresh directory -> ∃ after, step catalog = .ok after ∧ after.Lists (next directory))
      ∧ (¬ Fresh directory -> ∃ error, step catalog = .error error)

namespace Takes

variable {first second : Catalog -> Except RegistrationError Catalog}
  {Fresh Further Other : Directory -> Prop} {next further : Directory -> Directory}

theorem bind (takes : Takes first Fresh next) (andThen : Takes second Further further) :
    Takes (fun catalog => first catalog >>= second)
      (fun directory => Fresh directory ∧ Further (next directory))
      fun directory => further (next directory) := by
  intro catalog directory lists
  obtain ⟨runs, fails⟩ := takes catalog directory lists
  refine ⟨fun ⟨fresh, freshNext⟩ => ?_, fun stale => ?_⟩
  · obtain ⟨middle, isMiddle, middleLists⟩ := runs fresh
    obtain ⟨after, isAfter, afterLists⟩ := (andThen middle _ middleLists).1 freshNext
    exact ⟨after, (congrArg (· >>= second) isMiddle).trans isAfter, afterLists⟩
  · by_cases fresh : Fresh directory
    · obtain ⟨middle, isMiddle, middleLists⟩ := runs fresh
      obtain ⟨error, isError⟩ := (andThen middle _ middleLists).2 fun freshNext =>
        stale ⟨fresh, freshNext⟩
      exact ⟨error, (congrArg (· >>= second) isMiddle).trans isError⟩
    · obtain ⟨error, isError⟩ := fails fresh
      exact ⟨error, congrArg (· >>= second) isError⟩

theorem congr (takes : Takes first Fresh next)
    (same : ∀ directory, Fresh directory ↔ Other directory)
    (sameNext : ∀ directory, next directory = further directory) :
    Takes first Other further := by
  intro catalog directory lists
  rw [← same, ← sameNext]
  exact takes catalog directory lists

theorem pure : Takes Except.ok (fun _ => True) id :=
  fun catalog _ lists => ⟨fun _ => ⟨catalog, rfl, lists⟩, fun absurdity => (absurdity trivial).elim⟩

end Takes

variable {Entry Key : Type}

/-- Entries that are added one after the other, each under a key that must not be
blocked.  A key that was put is blocked from then on. -/
theorem takes_foldlM (Blocked : Directory -> Key -> Prop) (put : Directory -> List Key -> Directory)
    (one : ∀ entry, Takes (add · entry) (fun directory => ¬ Blocked directory (keyOf entry))
      (put · [keyOf entry])) (putNothing : ∀ directory, put directory [] = directory)
    (putMore : ∀ directory keys more,
      put (put directory keys) more = put directory (keys ++ more))
    (blocks : ∀ directory keys key,
      Blocked (put directory keys) key ↔ Blocked directory key ∨ key ∈ keys) (entries : List Entry) :
    Takes (entries.foldlM add ·)
      (fun directory => (entries.map keyOf).Nodup
        ∧ ∀ key, key ∈ entries.map keyOf -> ¬ Blocked directory key)
      (put · (entries.map keyOf)) := by
  induction entries with
  | nil =>
    refine Takes.pure.congr (fun directory => ?_) fun directory => (putNothing directory).symm
    exact ⟨fun _ => ⟨List.nodup_nil, nofun⟩, fun _ => trivial⟩
  | cons head _ ih =>
    refine ((one head).bind ih).congr (fun directory => ?_) fun directory =>
      putMore directory _ _
    simp only [blocks, List.map_cons, List.nodup_cons, List.mem_cons,
      List.not_mem_nil, or_false, forall_eq_or_imp]
    constructor
    · rintro ⟨free, distinct, apart⟩
      exact ⟨⟨fun member => apart _ member (.inr rfl), distinct⟩, free,
        fun key member blocked => apart key member (.inl blocked)⟩
    · rintro ⟨⟨absent, distinct⟩, free, apart⟩
      refine ⟨free, distinct, fun key member blocked => ?_⟩
      rcases blocked with blocked | rfl
      · exact apart key member blocked
      · exact absent member

/-! ## The steps of registration -/

private theorem contains_insert_iff [BEq Key] [LawfulBEq Key] [Hashable Key]
    {table : Std.HashMap Key Entry} {keys : List Key} {key : Key} {entry : Entry}
    (lists : ∀ other, table.contains other = true ↔ other ∈ keys) (other : Key) :
    (table.insert key entry).contains other = true ↔ other ∈ keys ++ [key] := by
  rw [Std.HashMap.contains_insert, Bool.or_eq_true, lists, beq_iff_eq, List.mem_append,
    List.mem_singleton, or_comm, eq_comm]

private theorem takes_ite {taken : Catalog -> Bool} {error : RegistrationError}
    {insert : Catalog -> Catalog} {Blocked : Directory -> Prop} {next : Directory -> Directory}
    (known : ∀ catalog directory, catalog.Lists directory ->
      (taken catalog = true ↔ Blocked directory))
    (inserted : ∀ catalog directory, catalog.Lists directory ->
      (insert catalog).Lists (next directory)) :
    Takes (fun catalog => if taken catalog then .error error else .ok (insert catalog))
      (fun directory => ¬ Blocked directory) next := by
  intro catalog directory lists
  have isTaken := known catalog directory lists
  refine ⟨fun free => ⟨_, if_neg fun blocked => free (isTaken.mp blocked), inserted _ _ lists⟩, ?_⟩
  exact fun blocked => ⟨_, if_pos (isTaken.mpr (Classical.not_not.mp blocked))⟩

theorem baseOf_ok_iff {catalog : Catalog} (lists : catalog.Lists directory)
    (definition : TypeDefinition) :
    (∃ base, catalog.baseOf definition = .ok base)
      ↔ ∀ base, definition.base = some base -> base ∈ directory.keys := by
  unfold baseOf
  cases definition.base with
  | none => exact ⟨fun _ _ isBase => (nomatch isBase), fun _ => ⟨none, rfl⟩⟩
  | some base =>
    simp only [Option.some.injEq, forall_eq', ← lists.keys, Std.HashMap.contains_eq_isSome_getElem?]
    cases catalog.names[base]? with
    | none => exact ⟨fun ⟨_, isOk⟩ => (nomatch isOk), fun isSome => (nomatch isSome)⟩
    | some => exact ⟨fun _ => rfl, fun _ => ⟨_, rfl⟩⟩

theorem takes_addNames (definitions : List TypeDefinition) : Takes (definitions.foldlM addName ·)
      (fun directory => Directory.New directory.keys (definitions.map (·.key)))
      fun directory => { directory with keys := directory.keys ++ definitions.map (·.key) } := by
  refine takes_foldlM (fun directory key => key ∈ directory.keys)
    (fun directory keys => { directory with keys := directory.keys ++ keys }) (fun _ => ?_)
    (fun _ => by simp) (fun _ _ _ => by simp) (fun _ _ _ => List.mem_append) definitions
  exact takes_ite (fun _ _ lists => lists.keys _) fun _ _ lists =>
    { lists with keys := contains_insert_iff lists.keys }

variable (typeName : String)

theorem takes_addMethods (entries : List MethodEntry) :
    Takes (entries.foldlM (addMethod typeName) ·)
      (fun directory => Directory.New directory.called (entries.map (·.hash)))
      fun directory => { directory with called := directory.called ++ entries.map (·.hash) } := by
  refine takes_foldlM (fun directory hash => hash ∈ directory.called)
    (fun directory hashes => { directory with called := directory.called ++ hashes })
    (fun _ => ?_) (fun _ => by simp) (fun _ _ _ => by simp) (fun _ _ _ => List.mem_append) entries
  exact takes_ite (fun _ _ lists => lists.called _) fun _ _ lists =>
    { lists with called := contains_insert_iff lists.called }

theorem takes_addFields (entries : List FieldEntry) : Takes (entries.foldlM (addField typeName) ·)
      (fun directory => Directory.New directory.fields (entries.map (·.hash)))
      fun directory => { directory with fields := directory.fields ++ entries.map (·.hash) } := by
  refine takes_foldlM (fun directory hash => hash ∈ directory.fields)
    (fun directory hashes => { directory with fields := directory.fields ++ hashes })
    (fun _ => ?_) (fun _ => by simp) (fun _ _ _ => by simp) (fun _ _ _ => List.mem_append) entries
  exact takes_ite (fun _ _ lists => lists.fields _) fun _ _ lists =>
    { lists with fields := contains_insert_iff lists.fields }

theorem takes_addProperties (entries : List PropertyEntry) :
    Takes (entries.foldlM (addProperty typeName) ·) (fun directory => (entries.map (·.hash)).Nodup
        ∧ ∀ hash, hash ∈ entries.map (·.hash) ->
          ¬ (hash ∈ directory.fields ∨ hash ∈ directory.properties))
      fun directory =>
        { directory with properties := directory.properties ++ entries.map (·.hash) } := by
  refine takes_foldlM (fun directory hash => hash ∈ directory.fields ∨ hash ∈ directory.properties)
    (fun directory hashes => { directory with properties := directory.properties ++ hashes })
    (fun _ => ?_) (fun _ => by simp) (fun _ _ _ => by simp)
    (fun _ _ _ => by rw [List.mem_append, or_assoc]) entries
  exact takes_ite
    (fun _ _ lists => Bool.or_eq_true _ _ ▸ or_congr (lists.fields _) (lists.properties _))
    fun _ _ lists => { lists with properties := contains_insert_iff lists.properties }

/-! ## Whole definitions -/

/-- The members of a definition come to a directory. -/
def withMembers (directory : Directory) (definition : TypeDefinition) : Directory :=
  { directory with
    called := directory.called ++ definition.calledHashes
    fields := directory.fields ++ definition.fieldHashes
    properties := directory.properties ++ definition.propertyHashes }

/-- The members of a definition can be added to a directory. -/
structure Admits (directory : Directory) (definition : TypeDefinition) : Prop where
  called : Directory.New directory.called definition.calledHashes
  fields : Directory.New directory.fields definition.fieldHashes
  properties : Directory.New directory.properties definition.propertyHashes
  apart : (directory.fields ++ definition.fieldHashes).Disjoint definition.propertyHashes

/-- The members of a type, one kind after the other. -/
private def addMembers (key : String) (type : HostType) (catalog : Catalog) :
    Except RegistrationError Catalog :=
  (type.constructors ++ type.methods).foldlM (addMethod key) catalog >>= fun catalog =>
    type.fields.foldlM (addField key) catalog >>= fun catalog =>
      type.properties.foldlM (addProperty key) catalog

private theorem register_eq (catalog : Catalog) (definition : TypeDefinition) :
    catalog.register definition = catalog.baseOf definition >>= fun base =>
      addMembers definition.key (hostType definition base) catalog >>= fun catalog =>
        .ok { catalog with
          types := catalog.types.insert definition.hash (hostType definition base) } := by
  simp only [register, addMembers, List.foldlM_append, bind_assoc]
  rfl

private theorem takes_addMembers (definition : TypeDefinition) (base : Option TypeHash) :
    Takes (addMembers definition.key (hostType definition base)) (Admits · definition)
      (withMembers · definition) := by
  have called : ((hostType definition base).constructors
      ++ (hostType definition base).methods).map (·.hash) = definition.calledHashes := by
    simp only [hostType, List.map_append, List.map_map, calledHashes,
      constructorHashes, constructorSignatures,
      methodHashes, methodSignatures]
    rfl
  have fields : (hostType definition base).fields.map (·.hash) = definition.fieldHashes := by
    simp only [hostType, List.map_map, fieldHashes]
    rfl
  have properties : (hostType definition base).properties.map (·.hash)
      = definition.propertyHashes := by
    simp only [hostType, List.map_map, propertyHashes]
    rfl
  let type := hostType definition base
  have steps := (takes_addMethods definition.key (type.constructors ++ type.methods)).bind
    ((takes_addFields definition.key type.fields).bind
      (takes_addProperties definition.key type.properties))
  refine steps.congr (fun directory => ?_) fun directory => ?_
  · rw [called, fields, properties]
    refine ⟨fun ⟨newCalled, newFields, distinct, free⟩ => ?_, fun admits => ?_⟩
    · exact ⟨newCalled, newFields, ⟨distinct, fun hash member taken => free hash member (.inr taken)⟩,
        fun hash isField member => free hash member (.inl isField)⟩
    · refine ⟨admits.called, admits.fields, admits.properties.1, fun hash member taken => ?_⟩
      exact taken.elim (fun isField => admits.apart isField member) (admits.properties.2 hash member)
  · rw [called, fields, properties]
    rfl

theorem takes_register (definition : TypeDefinition) : Takes (·.register definition)
      (fun directory => (∀ base, definition.base = some base -> base ∈ directory.keys)
        ∧ Admits directory definition)
      (withMembers · definition) := by
  intro catalog directory lists
  have known := baseOf_ok_iff lists definition
  dsimp only
  rw [register_eq]
  cases isBase : catalog.baseOf definition with
  | error error =>
    refine ⟨fun ⟨registered, _⟩ => ?_, fun _ => ⟨error, rfl⟩⟩
    obtain ⟨base, found⟩ := known.mpr registered
    cases isBase.symm.trans found
  | ok base =>
    obtain ⟨runs, fails⟩ := takes_addMembers definition base catalog directory lists
    refine ⟨fun ⟨_, admits⟩ => ?_, fun refused => ?_⟩
    · obtain ⟨after, isAfter, afterLists⟩ := runs admits
      refine ⟨{ after with
        types := after.types.insert definition.hash (hostType definition base) }, ?_,
        { afterLists with }⟩
      change addMembers _ _ catalog >>= _ = _
      rw [isAfter]
      rfl
    · obtain ⟨error, isError⟩ := fails fun admits => refused ⟨known.mp ⟨base, isBase⟩, admits⟩
      refine ⟨error, ?_⟩
      change addMembers _ _ catalog >>= _ = _
      rw [isError]
      rfl

/-- Definitions can be added to a directory in order. -/
structure AdmitsAll (directory : Directory) (definitions : List TypeDefinition) : Prop where
  bases : ∀ definition, definition ∈ definitions -> ∀ base,
    definition.base = some base -> base ∈ directory.keys
  called : Directory.New directory.called (definitions.flatMap calledHashes)
  fields : Directory.New directory.fields (definitions.flatMap fieldHashes)
  properties : Directory.New directory.properties (definitions.flatMap propertyHashes)
  apart : ∀ definition, definition ∈ definitions ->
    (directory.fields ++ definition.fieldHashes).Disjoint definition.propertyHashes
  earlier : definitions.Pairwise fun first second =>
    first.fieldHashes.Disjoint second.propertyHashes

private theorem admitsAll_cons (directory : Directory) (head : TypeDefinition)
    (tail : List TypeDefinition) :
    AdmitsAll directory (head :: tail)
      ↔ ((∀ base, head.base = some base -> base ∈ directory.keys) ∧ Admits directory head)
        ∧ AdmitsAll (withMembers directory head) tail := by
  constructor
  · rintro ⟨bases, called, fields, properties, apart, earlier⟩
    rw [List.flatMap_cons, Directory.new_append] at called fields properties
    rw [List.pairwise_cons] at earlier
    refine ⟨⟨bases head (.head _), called.1, fields.1, properties.1, apart head (.head _)⟩, ?_⟩
    refine ⟨fun other member => bases other (.tail _ member), called.2, fields.2,
      properties.2, fun other member => ?_, earlier.2⟩
    have direct := apart other (.tail _ member)
    rw [List.disjoint_append_left] at direct
    simp only [withMembers, List.disjoint_append_left]
    exact ⟨⟨direct.1, earlier.1 other member⟩, direct.2⟩
  · rintro ⟨⟨base, called, fields, properties, apart⟩, rest⟩
    have later (other : TypeDefinition) (member : other ∈ tail) :
        (directory.fields.Disjoint other.propertyHashes
          ∧ head.fieldHashes.Disjoint other.propertyHashes)
          ∧ other.fieldHashes.Disjoint other.propertyHashes := by
      have disjoint := rest.apart other member
      simp only [withMembers, List.disjoint_append_left] at disjoint
      exact disjoint
    constructor
    · exact List.forall_mem_cons.mpr ⟨base, rest.bases⟩
    · exact (Directory.new_append _ _ _).mpr ⟨called, rest.called⟩
    · exact (Directory.new_append _ _ _).mpr ⟨fields, rest.fields⟩
    · exact (Directory.new_append _ _ _).mpr ⟨properties, rest.properties⟩
    · refine List.forall_mem_cons.mpr ⟨apart, fun other member => ?_⟩
      exact List.disjoint_append_left.mpr ⟨(later other member).1.1, (later other member).2⟩
    · exact List.pairwise_cons.mpr ⟨fun other member => (later other member).1.2, rest.earlier⟩

theorem takes_registerAll (definitions : List TypeDefinition) :
    Takes (definitions.foldlM register ·) (AdmitsAll · definitions)
      (definitions.foldl withMembers ·) := by
  induction definitions with
  | nil =>
    refine Takes.pure.congr (fun directory => ?_) fun _ => rfl
    refine ⟨fun _ => ?_, fun _ => trivial⟩
    constructor <;> simp [Directory.New]
  | cons head tail ih =>
    refine ((takes_register head).bind ih).congr (fun directory => ?_) fun _ => rfl
    exact (admitsAll_cons directory head tail).symm

/-- What definitions add to an empty directory. -/
def directoryOf (definitions : List TypeDefinition) : Directory where
  keys := definitions.map (·.key)
  called := definitions.flatMap calledHashes
  fields := definitions.flatMap fieldHashes
  properties := definitions.flatMap propertyHashes

theorem foldl_withMembers (definitions : List TypeDefinition) (directory : Directory) :
    definitions.foldl withMembers directory
      = { keys := directory.keys
          called := directory.called ++ definitions.flatMap calledHashes
          fields := directory.fields ++ definitions.flatMap fieldHashes
          properties := directory.properties ++ definitions.flatMap propertyHashes } := by
  induction definitions generalizing directory with
  | nil => simp
  | cons head _ ih => simp [ih, withMembers]

/-- Definitions can be registered one after the other exactly if they are
registrable together, and then everything of theirs is listed. -/
theorem takes_all (all : List TypeDefinition) :
    (TypeDefinition.Registrable all -> ∃ catalog,
      (all.foldlM addName {} >>= fun named => all.foldlM register named) = .ok catalog
        ∧ catalog.Lists (directoryOf all))
      ∧ (¬ TypeDefinition.Registrable all -> ∃ error,
        (all.foldlM addName {} >>= fun named => all.foldlM register named) = .error error) := by
  obtain ⟨runs, fails⟩ :=
    ((takes_addNames all).bind (takes_registerAll all)) {} {} lists_empty
  have same : (Directory.New [] (all.map (·.key)) ∧ AdmitsAll { keys := [] ++ all.map (·.key) } all)
      ↔ TypeDefinition.Registrable all := by
    constructor
    · rintro ⟨⟨keys, _⟩, bases, ⟨called, _⟩, ⟨fields, _⟩, ⟨properties, _⟩, apart, earlier⟩
      exact ⟨keys, bases, called, fields, properties, apart, earlier⟩
    · rintro ⟨keys, bases, called, fields, properties, own, earlier⟩
      have new {Key : Type} {list : List Key} (distinct : list.Nodup) : Directory.New [] list :=
        ⟨distinct, fun _ _ => List.not_mem_nil⟩
      exact ⟨new keys, bases, new called, new fields, new properties, own, earlier⟩
  refine ⟨fun registrable => ?_, fun refused => fails fun admits => refused (same.mp admits)⟩
  obtain ⟨catalog, built, lists⟩ := runs (same.mpr registrable)
  dsimp only at lists
  rw [foldl_withMembers] at lists
  exact ⟨catalog, built, lists⟩

theorem build_ok_iff (definitions : List TypeDefinition) :
    (∃ catalog, build definitions = .ok catalog)
      ↔ TypeDefinition.Registrable (SystemTypes.definitions ++ definitions) := by
  obtain ⟨runs, fails⟩ := takes_all (SystemTypes.definitions ++ definitions)
  constructor
  · rintro ⟨catalog, built⟩
    refine Classical.byContradiction fun refused => ?_
    obtain ⟨_, isError⟩ := fails refused
    cases isError.symm.trans built
  · intro registrable
    obtain ⟨catalog, built, _⟩ := runs registrable
    exact ⟨catalog, built⟩

/-- A catalog that was built lists the keys and the members of all definitions. -/
theorem lists_build (built : build definitions = .ok catalog) :
    catalog.Lists (directoryOf (SystemTypes.definitions ++ definitions)) := by
  obtain ⟨_, isBuilt, lists⟩ := (takes_all (SystemTypes.definitions ++ definitions)).1
    ((build_ok_iff definitions).mp ⟨catalog, built⟩)
  cases isBuilt.symm.trans built
  exact lists

theorem exists_build_nil : ∃ catalog, build [] = .ok catalog := by
  refine (build_ok_iff _).mpr (registrable_of_apart ?_ ?_ ?_ ?_ ?_ ?_) <;> decide +kernel

/-- Registration succeeds exactly if keys are distinct, bases are registered and
the hashes of all members are distinct.  Then each type has distinct members.
The converse fails for members of different types: two fields, or two methods
with the same parameters, meet whenever each is called like the owner of the
other. -/
theorem build_succeeds_iff (definitions : List TypeDefinition) :
    ((∃ catalog, build definitions = .ok catalog)
        ↔ TypeDefinition.Registrable (SystemTypes.definitions ++ definitions))
      ∧ ((∃ catalog, build definitions = .ok catalog) ->
        ∀ definition, definition ∈ SystemTypes.definitions ++ definitions ->
          definition.HasDistinctMembers)
      ∧ ∀ first second, [first, second].Sublist (SystemTypes.definitions ++ definitions) ->
        (∃ field other, field ∈ first.fields ∧ other ∈ second.fields
            ∧ field.name = second.key ∧ other.name = first.key)
          ∨ (∃ method other, method ∈ first.methods
            ∧ other ∈ second.methods ∧ method.name = second.key ∧ other.name = first.key
            ∧ method.parameters = other.parameters) ->
        ¬ ∃ catalog, build definitions = .ok catalog := by
  refine ⟨build_ok_iff definitions, fun built definition member => ?_, ?_⟩
  · exact ((build_ok_iff definitions).mp built).hasDistinctMembers member
  · intro first second sublist meets built
    have registrable := (build_ok_iff definitions).mp built
    rcases meets with ⟨field, other, inFirst, inSecond, named, otherNamed⟩
      | ⟨method, other, inFirst, inSecond, named, otherNamed, same⟩
    · have apart := List.pairwise_pair.mp
        ((List.nodup_flatMap.mp registrable.fields).2.sublist sublist)
      refine apart (TypeDefinition.mem_fieldHashes inFirst) ?_
      rw [named, TypeDefinition.hash, TypeHash.ofMember_swap, ← otherNamed]
      exact TypeDefinition.mem_fieldHashes inSecond
    · have apart := List.pairwise_pair.mp
        ((List.nodup_flatMap.mp registrable.called).2.sublist sublist)
      refine apart (TypeDefinition.mem_calledHashes inFirst) ?_
      rw [named, TypeDefinition.hash, TypeHash.ofMethod_swap, ← otherNamed, same]
      exact TypeDefinition.mem_calledHashes inSecond

end Catalog
end OpMachine
