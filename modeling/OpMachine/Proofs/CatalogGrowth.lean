import OpMachine.Overload

namespace OpMachine

/-!
# Growth of catalogs

A catalog is shared by all compilations and grows while types are resolved.
What is registered never changes; closed generic types and closed generic
methods are added and never replaced.  `Catalog.Grows` states this, and every
lookup is shown to respect it, also one that fails in the end.

`Catalog.Coherent` says that the members of a registered type are found under
their hashes.  A catalog made by `Catalog.build` is coherent, and growth keeps
it so.  Nothing is assumed about hashes: two types with one hash replace each
other, and the statements below hold for the one that stays.
-/

/-- What a table holds after an insertion was inserted, or it was there before. -/
theorem inserted_or_found {Key Entry : Type} [BEq Key] [LawfulBEq Key] [Hashable Key]
    {table : Std.HashMap Key Entry} {key other : Key} {entry result : Entry}
    (found : (table.insert key entry)[other]? = some result) :
    key = other ∧ entry = result ∨ table[other]? = some result := by
  rw [Std.HashMap.getElem?_insert] at found
  split at found
  · rename_i same
    exact .inl ⟨beq_iff_eq.mp same, Option.some.inj found⟩
  · exact .inr found

namespace Catalog

/-! ## Growth -/

/-- The parts of a catalog that are fixed when it is made. -/
structure SameRegistered (before after : Catalog) : Prop where
  types : after.types = before.types
  names : after.names = before.names
  methods : after.methods = before.methods
  fields : after.fields = before.fields
  properties : after.properties = before.properties

theorem SameRegistered.refl (catalog : Catalog) : catalog.SameRegistered catalog :=
  ⟨rfl, rfl, rfl, rfl, rfl⟩

variable {first second third : Catalog}

theorem SameRegistered.trans
    (earlier : first.SameRegistered second) (later : second.SameRegistered third) :
    first.SameRegistered third :=
  ⟨later.types.trans earlier.types, later.names.trans earlier.names,
    later.methods.trans earlier.methods, later.fields.trans earlier.fields,
    later.properties.trans earlier.properties⟩

theorem SameRegistered.symm {before after : Catalog} (same : before.SameRegistered after) :
    after.SameRegistered before :=
  ⟨same.types.symm, same.names.symm, same.methods.symm, same.fields.symm, same.properties.symm⟩

/-- Members stand in the tables under their hashes: those of a registered type
in the tables of registered members, and closed methods in their own table.
Closed types have no members. -/
structure Coherent (catalog : Catalog) : Prop where
  constructors : ∀ (hash : TypeHash) (type : HostType), catalog.types[hash]? = some type ->
    ∀ method : MethodEntry, method ∈ type.constructors -> catalog.methods[method.hash]? = some method
  methods : ∀ (hash : TypeHash) (type : HostType), catalog.types[hash]? = some type ->
    ∀ method : MethodEntry, method ∈ type.methods -> catalog.methods[method.hash]? = some method
  fields : ∀ (hash : TypeHash) (type : HostType), catalog.types[hash]? = some type ->
    ∀ field, field ∈ type.fields -> catalog.fields[field.hash]? = some field
  properties : ∀ (hash : TypeHash) (type : HostType), catalog.types[hash]? = some type ->
    ∀ property, property ∈ type.properties ->
      catalog.properties[property.hash]? = some property
  instances : ∀ (hash : TypeHash) (type : HostType), catalog.instances[hash]? = some type ->
    type.constructors = [] ∧ type.methods = [] ∧ type.fields = [] ∧ type.properties = []
  closedMethods : ∀ (hash : TypeHash) (method : MethodEntry), catalog.closedMethods[hash]? = some method ->
    method.hash = hash

/-- A later state of a catalog: the registered part is the same, and nothing
that was added before is lost or replaced. -/
structure Grows (before after : Catalog) : Prop extends before.SameRegistered after where
  instances : ∀ (hash : TypeHash) (type : HostType), before.instances[hash]? = some type ->
    after.instances[hash]? = some type
  closedMethods : ∀ (hash : TypeHash) (method : MethodEntry), before.closedMethods[hash]? = some method ->
    after.closedMethods[hash]? = some method
  coherent : before.Coherent -> after.Coherent

/-- An earlier state of a coherent catalog is coherent. -/
theorem Grows.coherent_before {before after : Catalog} (grows : before.Grows after)
    (coherent : after.Coherent) : before.Coherent where
  constructors := fun hash type found => grows.methods ▸ coherent.constructors hash type (grows.types ▸ found)
  methods := fun hash type found => grows.methods ▸ coherent.methods hash type (grows.types ▸ found)
  fields := fun hash type found => grows.fields ▸ coherent.fields hash type (grows.types ▸ found)
  properties := fun hash type found =>
    grows.properties ▸ coherent.properties hash type (grows.types ▸ found)
  instances := fun hash type found => coherent.instances hash type (grows.instances hash type found)
  closedMethods := fun hash method found =>
    coherent.closedMethods hash method (grows.closedMethods hash method found)

theorem Grows.refl (catalog : Catalog) : catalog.Grows catalog :=
  ⟨.refl catalog, fun _ _ found => found, fun _ _ found => found, fun coherent => coherent⟩

theorem Grows.trans (earlier : first.Grows second)
    (later : second.Grows third) : first.Grows third :=
  ⟨earlier.toSameRegistered.trans later.toSameRegistered,
    fun hash type found => later.instances hash type (earlier.instances hash type found),
    fun hash method found => later.closedMethods hash method
      (earlier.closedMethods hash method found),
    fun coherent => later.coherent (earlier.coherent coherent)⟩

section

variable {before after : Catalog}

theorem Grows.get? (grows : before.Grows after) {hash : TypeHash}
    (found : before.get? hash = some type) : after.get? hash = some type := by
  unfold Catalog.get? at found ⊢
  rw [grows.types]
  cases registered : before.types[hash]? with
  | some => rw [registered] at found; exact found
  | none => rw [registered] at found; exact grows.instances hash type found

end

/-! ## Lookups -/

end Catalog

namespace Lookup

variable {α β : Type}

/-- A lookup leaves a later state of the catalog, whatever its answer. -/
def Extends (action : Lookup α) : Prop :=
  ∀ catalog : Catalog, catalog.Grows (catalog.lookup action).2

/-- The answer of a lookup depends on the registered part of a catalog only. -/
def Stable (action : Lookup α) : Prop :=
  ∀ before after : Catalog, before.SameRegistered after ->
    (after.lookup action).1 = (before.lookup action).1

variable (catalog : Catalog)

private theorem lookup_bind_run (action : Lookup α) (next : α -> Lookup β) :
    catalog.lookup (action >>= next) = (StateT.bind action fun
      | some answer => next answer
      | none => pure none) catalog := rfl

theorem lookup_bind (action : Lookup α) (next : α -> Lookup β) :
    catalog.lookup (action >>= next) = match catalog.lookup action with
      | (some answer, later) => later.lookup (next answer)
      | (none, later) => (none, later) := by
  rcases outcome : catalog.lookup action with ⟨answer, later⟩
  have run : action catalog = (answer, later) := outcome
  simp only [lookup_bind_run, StateT.bind, run]
  cases answer <;> rfl

theorem lookup_get_bind (next : Catalog -> Lookup α) :
    catalog.lookup (get >>= next) = catalog.lookup (next catalog) := rfl

theorem Stable.bind {next : α -> Lookup β} (first : Stable action) (extending : Extends action)
    (second : ∀ answer, Stable (next answer)) : Stable (action >>= next) := by
  intro before after same
  have answers := first before after same
  have earlier := (extending before).toSameRegistered
  have later := (extending after).toSameRegistered
  rw [lookup_bind, lookup_bind]
  rcases fromBefore : before.lookup action with ⟨answer, beforeNext⟩
  rcases fromAfter : after.lookup action with ⟨answer', afterNext⟩
  rw [fromBefore] at earlier answers
  rw [fromAfter] at later answers
  cases answers
  cases answer with
  | none => rfl
  | some answer => exact second answer beforeNext afterNext ((earlier.symm.trans same).trans later)

end Lookup

namespace Catalog

variable (catalog : Catalog)

/-- The catalog with a definition closed over arguments, unless there is a
closed type with the hash already. -/
def withInstance (definition : HostType) (hash : TypeHash) (arguments : List TypeHash) : Catalog :=
  if catalog.instances.contains hash then catalog
  else
    { catalog with
      instances := catalog.instances.insert hash
        (catalog.instanceType definition hash arguments) }

theorem lookup_closeGeneric (definition : TypeHash) (arguments : List TypeHash) :
    catalog.lookup (closeGeneric definition arguments) = match catalog.types[definition]? with
      | none => (none, catalog)
      | some type =>
        if type.traits.isGenericDefinition && type.genericParameters.length == arguments.length then
          let hash := TypeHash.ofInstance definition arguments
          (some hash, catalog.withInstance type hash arguments)
        else (none, catalog) := by
  unfold closeGeneric
  rw [Lookup.lookup_get_bind]
  cases catalog.types[definition]? with
  | none => rfl
  | some =>
    simp only
    split
    · unfold withInstance
      split
      · rfl
      · rfl
    · rfl

private theorem getElem?_insert_of_free {Entry : Type} (table : Std.HashMap TypeHash Entry)
    {hash other : TypeHash} {entry found : Entry} (free : ¬ table.contains hash = true)
    (present : table[other]? = some found) : (table.insert hash entry)[other]? = some found := by
  have different : hash ≠ other := by
    rintro rfl
    rw [Std.HashMap.contains_eq_isSome_getElem?, present] at free
    exact free rfl
  rw [Std.HashMap.getElem?_insert, beq_false_of_ne different]
  exact present

theorem grows_withInstance (definition : HostType) (hash : TypeHash) (arguments : List TypeHash) :
    catalog.Grows (catalog.withInstance definition hash arguments) := by
  unfold withInstance
  split
  · exact .refl catalog
  · rename_i absent
    refine ⟨⟨rfl, rfl, rfl, rfl, rfl⟩, fun _ _ => getElem?_insert_of_free _ absent,
      fun _ _ found => found, fun coherent =>
        { coherent with instances := fun other type found => ?_ }⟩
    rcases inserted_or_found found with ⟨_, rfl⟩ | earlier
    · exact ⟨rfl, rfl, rfl, rfl⟩
    · exact coherent.instances other type earlier

theorem instances_withInstance {catalog : Catalog} {hash other : TypeHash}
    (found : (catalog.withInstance definition hash arguments).instances[other]? = some closed) :
    catalog.instances[other]? = some closed
      ∨ hash = other ∧ catalog.instanceType definition hash arguments = closed := by
  unfold withInstance at found
  split at found
  · exact .inl found
  · exact (inserted_or_found found).symm

theorem extends_closeGeneric (definition : TypeHash) (arguments : List TypeHash) :
    Lookup.Extends (closeGeneric definition arguments) := by
  intro catalog
  rw [lookup_closeGeneric]
  split
  · exact .refl catalog
  · split
    · exact grows_withInstance ..
    · exact .refl catalog

theorem lookup_closeMethod (method : MethodEntry) (arguments : List TypeHash) :
    catalog.lookup (closeMethod method arguments) = if arguments.isEmpty then (some method, catalog)
      else if method.genericParameters.length ≠ arguments.length then (none, catalog)
      else
        let hash := TypeHash.ofClosedMethod method.hash arguments
        match catalog.closedMethods[hash]? with
        | some closed => (some closed, catalog)
        | none =>
          let closed := closedMethod method hash arguments
          (some closed,
            { catalog with closedMethods := catalog.closedMethods.insert hash closed }) := by
  unfold closeMethod
  split
  · rfl
  · split
    · rfl
    · rw [Lookup.lookup_get_bind]
      simp only
      cases catalog.closedMethods[TypeHash.ofClosedMethod method.hash arguments]? <;> rfl

theorem extends_closeMethod (method : MethodEntry) (arguments : List TypeHash) :
    Lookup.Extends (closeMethod method arguments) := by
  intro catalog
  rw [lookup_closeMethod]
  split
  · exact .refl catalog
  · split
    · exact .refl catalog
    · simp only
      cases absent : catalog.closedMethods[TypeHash.ofClosedMethod method.hash arguments]? with
      | some => exact .refl catalog
      | none =>
        have free : ¬ catalog.closedMethods.contains (.ofClosedMethod method.hash arguments) = true := by
          rw [Std.HashMap.contains_eq_isSome_getElem?, absent]
          exact Bool.false_ne_true
        refine ⟨⟨rfl, rfl, rfl, rfl, rfl⟩, fun _ _ found => found,
          fun _ _ => getElem?_insert_of_free _ free, fun coherent =>
            { coherent with closedMethods := fun other entry found => ?_ }⟩
        rcases inserted_or_found found with ⟨same, rfl⟩ | earlier
        · exact same
        · exact coherent.closedMethods other entry earlier

/-! ## Closing types and methods -/

/-- A catalog after generic types and methods have been closed, as every question
to it may do. -/
inductive Asked (catalog : Catalog) : Catalog -> Prop
  | nothing : Asked catalog catalog
  | closeGeneric {before : Catalog} (earlier : Asked catalog before) (definition : TypeHash)
      (arguments : List TypeHash) :
      Asked catalog (before.lookup (closeGeneric definition arguments)).2
  | closeMethod {before : Catalog} (earlier : Asked catalog before) (method : MethodEntry)
      (arguments : List TypeHash) :
      Asked catalog (before.lookup (closeMethod method arguments)).2

theorem Asked.grows {catalog later : Catalog} (asked : catalog.Asked later) :
    catalog.Grows later := by
  induction asked with
  | nothing => exact .refl catalog
  | closeGeneric _ definition arguments ih =>
    exact ih.trans (extends_closeGeneric definition arguments _)
  | closeMethod _ method arguments ih => exact ih.trans (extends_closeMethod method arguments _)

theorem Asked.trans {first second third : Catalog} (earlier : first.Asked second)
    (later : second.Asked third) : first.Asked third := by
  induction later with
  | nothing => exact earlier
  | closeGeneric _ definition arguments ih => exact .closeGeneric ih definition arguments
  | closeMethod _ method arguments ih => exact .closeMethod ih method arguments

end Catalog

namespace Lookup

variable {α β : Type} {action : Lookup α}

/-- A lookup closes types and methods and does nothing else to a catalog,
whatever its answer. -/
def Closes (action : Lookup α) : Prop :=
  ∀ catalog : Catalog, catalog.Asked (catalog.lookup action).2

theorem Closes.extends (closes : action.Closes) : action.Extends :=
  fun catalog => (closes catalog).grows

theorem closes_pure (answer : α) : Closes (pure answer : Lookup α) := fun _ => .nothing

theorem closes_failure : Closes (failure : Lookup α) := fun _ => .nothing

theorem closes_get : Closes (get : Lookup Catalog) := fun _ => .nothing

theorem Closes.bind {next : α -> Lookup β} (first : Closes action)
    (second : ∀ answer, Closes (next answer)) : Closes (action >>= next) := by
  intro catalog
  have earlier := first catalog
  rw [lookup_bind]
  rcases outcome : catalog.lookup action with ⟨answer, later⟩
  rw [outcome] at earlier
  cases answer with
  | none => exact earlier
  | some answer => exact earlier.trans (second answer later)

end Lookup

/-! ## Resolution -/

namespace Lookup

variable {α β : Type} {action : Lookup α}

/-- A lookup that only closes types and methods, with an answer that depends on the
registered part. -/
structure Regular (action : Lookup α) : Prop where
  closes : action.Closes
  stable : action.Stable

theorem Regular.pure (answer : α) : Regular (pure answer : Lookup α) :=
  ⟨closes_pure answer, fun _ _ _ => rfl⟩

theorem Regular.failure : Regular (failure : Lookup α) := ⟨closes_failure, fun _ _ _ => rfl⟩

theorem Regular.bind (first : Regular action) (second : ∀ answer, Regular (next answer)) :
    Regular (action >>= next) where
  closes := first.closes.bind fun answer => (second answer).closes
  stable := first.stable.bind first.closes.extends fun answer => (second answer).stable

theorem Regular.byName (known : ∀ catalog, Regular (next catalog))
    (named : ∀ before after, after.names = before.names -> next after = next before) :
    Regular (get >>= next) where
  closes := .bind closes_get fun catalog => (known catalog).closes
  stable := by
    intro before after same
    rw [lookup_get_bind, named before after same.names]
    exact (known before).stable before after same

end Lookup

namespace Catalog

theorem regular_closeGeneric (definition : TypeHash) (arguments : List TypeHash) :
    Lookup.Regular (closeGeneric definition arguments) where
  closes := fun _ => .closeGeneric .nothing definition arguments
  stable := by
    intro before after same
    rw [lookup_closeGeneric, lookup_closeGeneric, same.types]
    split
    · rfl
    · split
      · rfl
      · rfl

theorem regular_closeArray (element : TypeHash) (rank : Nat) :
    Lookup.Regular (closeArray element rank) := by
  refine .byName (fun catalog => ?_) fun _ _ same => by simp only [byName?, same]
  split
  · exact regular_closeGeneric _ _
  · exact .failure

mutual

theorem regular_resolve : ∀ descriptor : Descriptor, Lookup.Regular (resolve descriptor)
  | .void => by
      rw [resolve]
      exact .pure _
  | .parameter _ => by
      rw [resolve]
      exact .failure
  | .named name arguments => by
      rw [resolve]
      refine .byName (fun catalog => ?_) fun _ _ same => by simp only [byName?, same]
      split
      · exact .failure
      · split
        · exact .pure _
        · exact (regular_resolveAll arguments).bind fun _ => regular_closeGeneric _ _
  | .array element rank => by
      rw [resolve]
      exact (regular_resolve element).bind fun _ => regular_closeArray _ _

theorem regular_resolveAll :
    ∀ descriptors : List Descriptor, Lookup.Regular (resolveAll descriptors)
  | [] => by
      rw [resolveAll]
      exact .pure _
  | head :: tail => by
      rw [resolveAll]
      exact (regular_resolve head).bind fun _ => (regular_resolveAll tail).bind fun _ =>
        .pure _

end

mutual

theorem regular_materialize : ∀ type : TypeRef, Lookup.Regular (materialize type)
  | .void | .concrete _ => by
      rw [materialize]
      exact .pure _
  | .typeParameter _ | .methodParameter _ => by
      rw [materialize]
      exact .failure
  | .generic definition arguments => by
      rw [materialize]
      exact (regular_materializeAll arguments).bind fun _ => regular_closeGeneric _ _

theorem regular_materializeAll : ∀ types : List TypeRef, Lookup.Regular (materializeAll types)
  | [] => by
      rw [materializeAll]
      exact .pure _
  | head :: tail => by
      rw [materializeAll]
      exact (regular_materialize head).bind fun _ => (regular_materializeAll tail).bind fun _ =>
        .pure _

end

theorem regular_functionType (method : MethodSymbol) : Lookup.Regular (functionType method) := by
  refine (regular_resolveAll _).bind fun parameters => ?_
  split
  · refine (regular_resolve _).bind fun result => ?_
    split
    · exact regular_closeGeneric _ _
    · exact .failure
  · dsimp only
    split
    · split
      · exact .pure _
      · exact regular_closeGeneric _ _
    · exact .failure

variable {α Entry : Type} {typeName : String} {before after : Catalog} {definition : TypeDefinition}

theorem closes_delegateSignature (hash : TypeHash) : Lookup.Closes (delegateSignature hash) := by
  refine .bind Lookup.closes_get fun catalog => ?_
  split
  · exact Lookup.closes_failure
  · split
    · exact Lookup.closes_failure
    · refine .bind (regular_materializeAll _).closes fun parameters => ?_
      dsimp only
      split
      · exact Lookup.closes_pure _
      · exact .bind (regular_materialize _).closes fun _ => Lookup.closes_pure _

/-! ## Registration -/

theorem ok_of_bind {β ε : Type} {action : Except ε α} {next : α -> Except ε β}
    {result : β} (runs : (action >>= next) = .ok result) :
    ∃ middle, action = .ok middle ∧ next middle = .ok result := by
  cases action with
  | error => cases runs
  | ok middle => exact ⟨middle, rfl, runs⟩

/-- What every addition keeps, for the items taken so far, holds of all of them
in the end. -/
theorem kept_foldlM {Item : Type} {add : Catalog -> Item -> Except RegistrationError Catalog}
    (Kept : List Item -> Catalog -> Prop)
    (step : ∀ front before item after, Kept front before -> add before item = .ok after ->
      Kept (front ++ [item]) after)
    (front : List Item) {items : List Item} (kept : Kept front before)
    (added : items.foldlM add before = .ok after) : Kept (front ++ items) after := by
  induction items generalizing front before with
  | nil =>
    cases added
    rwa [List.append_nil]
  | cons head _ ih =>
    obtain ⟨middle, first, rest⟩ := ok_of_bind added
    rw [List.append_cons]
    exact ih _ (step front before head middle kept first) rest

/-- Registration of members keeps what was there and touches no type. -/
structure Keeps (before after : Catalog) : Prop where
  names : after.names = before.names
  types : after.types = before.types
  instances : after.instances = before.instances
  closedMethods : after.closedMethods = before.closedMethods
  methods : ∀ (hash : TypeHash) (method : MethodEntry),
    before.methods[hash]? = some method -> after.methods[hash]? = some method
  fields : ∀ (hash : TypeHash) (field : FieldEntry),
    before.fields[hash]? = some field -> after.fields[hash]? = some field
  properties : ∀ (hash : TypeHash) (property : PropertyEntry),
    before.properties[hash]? = some property -> after.properties[hash]? = some property

theorem Keeps.refl (catalog : Catalog) : catalog.Keeps catalog :=
  ⟨rfl, rfl, rfl, rfl, fun _ _ found => found, fun _ _ found => found, fun _ _ found => found⟩

theorem Keeps.trans {first second third : Catalog} (earlier : first.Keeps second)
    (later : second.Keeps third) : first.Keeps third :=
  ⟨later.names.trans earlier.names, later.types.trans earlier.types,
    later.instances.trans earlier.instances, later.closedMethods.trans earlier.closedMethods,
    fun hash method found => later.methods hash method (earlier.methods hash method found),
    fun hash field found => later.fields hash field (earlier.fields hash field found),
    fun hash property found => later.properties hash property
      (earlier.properties hash property found)⟩

theorem Keeps.coherent {before after : Catalog} (keeps : before.Keeps after)
    (coherent : before.Coherent) : after.Coherent := by
  obtain ⟨_, types, instances, closedMethods, methods, fields, properties⟩ := keeps
  refine ⟨?_, ?_, ?_, ?_, instances ▸ coherent.instances, closedMethods ▸ coherent.closedMethods⟩
    <;> rw [types] <;> intro hash type found member isMember
  · exact methods _ _ (coherent.constructors hash type found member isMember)
  · exact methods _ _ (coherent.methods hash type found member isMember)
  · exact fields _ _ (coherent.fields hash type found member isMember)
  · exact properties _ _ (coherent.properties hash type found member isMember)

/-- Members added one after the other are all stored in the end, when each
addition stores its member and keeps the ones before. -/
theorem keeps_foldlM {add : Catalog -> Entry -> Except RegistrationError Catalog}
    (Stored : Catalog -> Entry -> Prop)
    (step : ∀ before after entry, add before entry = .ok after ->
      before.Keeps after ∧ Stored after entry)
    (kept : ∀ before after entry, Keeps before after -> Stored before entry ->
      Stored after entry)
    {entries : List Entry} (added : entries.foldlM add before = .ok after) :
    before.Keeps after ∧ ∀ entry, entry ∈ entries -> Stored after entry := by
  refine kept_foldlM (fun front middle => before.Keeps middle ∧
    ∀ entry, entry ∈ front -> Stored middle entry) ?_ []
    ⟨.refl _, nofun⟩ added
  rintro _ first item second ⟨keeps, stored⟩ added
  obtain ⟨keepsItem, itemStored⟩ := step first second item added
  refine ⟨keeps.trans keepsItem, fun entry member => ?_⟩
  rcases List.mem_append.mp member with earlier | isItem
  · exact kept first second entry keepsItem (stored entry earlier)
  · rwa [List.mem_singleton.mp isItem]

theorem keeps_addMethods
    {entries : List MethodEntry} (added : entries.foldlM (addMethod typeName) before = .ok after) :
    before.Keeps after ∧ ∀ entry, entry ∈ entries ->
      after.methods[entry.hash]? = some entry := by
  refine keeps_foldlM (fun catalog entry => catalog.methods[entry.hash]? = some entry) ?_
    (fun _ _ _ keeps => keeps.methods _ _) added
  intro _ _ _ added
  unfold addMethod at added
  split at added <;> cases added
  rename_i absent
  exact ⟨⟨rfl, rfl, rfl, rfl, fun _ _ => getElem?_insert_of_free _ absent,
    fun _ _ found => found, fun _ _ found => found⟩, Std.HashMap.getElem?_insert_self⟩

theorem keeps_addFields
    {entries : List FieldEntry} (added : entries.foldlM (addField typeName) before = .ok after) :
    before.Keeps after ∧ ∀ entry, entry ∈ entries ->
      after.fields[entry.hash]? = some entry := by
  refine keeps_foldlM (fun catalog entry => catalog.fields[entry.hash]? = some entry) ?_
    (fun _ _ _ keeps => keeps.fields _ _) added
  intro _ _ _ added
  unfold addField at added
  split at added <;> cases added
  rename_i absent
  exact ⟨⟨rfl, rfl, rfl, rfl, fun _ _ found => found,
    fun _ _ => getElem?_insert_of_free _ absent,
    fun _ _ found => found⟩, Std.HashMap.getElem?_insert_self⟩

theorem keeps_addProperties {entries : List PropertyEntry}
    (added : entries.foldlM (addProperty typeName) before = .ok after) :
    before.Keeps after ∧ ∀ entry, entry ∈ entries ->
      after.properties[entry.hash]? = some entry := by
  refine keeps_foldlM (fun catalog entry => catalog.properties[entry.hash]? = some entry) ?_
    (fun _ _ _ keeps => keeps.properties _ _) added
  intro _ _ _ added
  unfold addProperty at added
  split at added <;> cases added
  rename_i absent
  have free := (Bool.or_eq_false_iff.mp (Bool.eq_false_iff.mpr absent)).2
  exact ⟨⟨rfl, rfl, rfl, rfl, fun _ _ found => found, fun _ _ found => found,
    fun _ _ found => getElem?_insert_of_free _ (Bool.eq_false_iff.mp free) found⟩, Std.HashMap.getElem?_insert_self⟩

theorem register_ok (registered : before.register definition = .ok after) :
    ∃ base, ∃ middle : Catalog,
      before.baseOf definition = .ok base ∧ before.Keeps middle ∧ after = { middle with
          types := middle.types.insert definition.hash (hostType definition base) }
        ∧ (∀ method, method ∈ (hostType definition base).constructors
          ++ (hostType definition base).methods -> middle.methods[method.hash]? = some method)
        ∧ (∀ field, field ∈ (hostType definition base).fields ->
          middle.fields[field.hash]? = some field)
        ∧ ∀ property, property ∈ (hostType definition base).properties ->
          middle.properties[property.hash]? = some property := by
  obtain ⟨base, isBase, registered⟩ := ok_of_bind registered
  obtain ⟨_, constructorsAdded, registered⟩ := ok_of_bind registered
  obtain ⟨_, methodsAdded, registered⟩ := ok_of_bind registered
  obtain ⟨_, fieldsAdded, registered⟩ := ok_of_bind registered
  obtain ⟨middle, propertiesAdded, registered⟩ := ok_of_bind registered
  obtain ⟨keepsFirst, constructors⟩ := keeps_addMethods constructorsAdded
  obtain ⟨keepsSecond, methods⟩ := keeps_addMethods methodsAdded
  obtain ⟨keepsThird, fields⟩ := keeps_addFields fieldsAdded
  obtain ⟨keepsFourth, properties⟩ := keeps_addProperties propertiesAdded
  have keepsMembers := keepsThird.trans keepsFourth
  cases registered
  refine ⟨base, middle, isBase, (keepsFirst.trans keepsSecond).trans keepsMembers, rfl,
    List.forall_mem_append.mpr ⟨fun method member => ?_, fun method member => ?_⟩,
    fun field member => keepsFourth.fields _ _ (fields field member), properties⟩
  · exact (keepsSecond.trans keepsMembers).methods _ _ (constructors method member)
  · exact keepsMembers.methods _ _ (methods method member)

theorem coherent_register
    (coherent : before.Coherent) (registered : before.register definition = .ok after) :
    after.Coherent := by
  obtain ⟨base, middle, _, keeps, rfl, methods, fields, properties⟩ := register_ok registered
  have whole := keeps.coherent coherent
  have added {Property : HostType -> Prop} (isOwn : Property (hostType definition base))
      (earlier : ∀ (hash : TypeHash) found, middle.types[hash]? = some found -> Property found)
      (hash : TypeHash) (found : HostType)
      (member : (middle.types.insert definition.hash (hostType definition base))[hash]?
        = some found) : Property found := by
    rcases inserted_or_found member with ⟨_, rfl⟩ | member
    · exact isOwn
    · exact earlier hash found member
  obtain ⟨constructors, methods⟩ := List.forall_mem_append.mp methods
  exact ⟨added constructors whole.constructors, added methods whole.methods,
    added fields whole.fields, added properties whole.properties, whole.instances,
    whole.closedMethods⟩

theorem coherent_empty : Coherent {} := by
  refine ⟨?_, ?_, ?_, ?_, ?_, ?_⟩
  all_goals
    intro hash entry found
    rw [Std.HashMap.getElem?_empty] at found
    cases found

theorem coherent_build {definitions : List TypeDefinition} {catalog : Catalog}
    (built : build definitions = .ok catalog) : catalog.Coherent := by
  obtain ⟨_, namesAdded, registered⟩ := ok_of_bind built
  -- Names come before members, so they leave all tables but their own empty.
  have withNames := kept_foldlM (fun _ => Coherent) (fun _ _ _ _ coherent added => by
    unfold addName at added
    split at added <;> cases added
    exact { coherent with }) [] coherent_empty namesAdded
  exact kept_foldlM (fun _ => Coherent) (fun _ _ _ _ => coherent_register) [] withNames registered

end Catalog
end OpMachine
