import OpMachine.Proofs.TranslationSteps

namespace OpMachine

/-!
# Members that were found

Code names a member of a host type by its hash.  The hash comes from an answer
of the catalog: the best overload among the members of a type, or a generic
method closed over type arguments.  In a coherent catalog such an answer is
known, that is, the catalog holds it under its own hash, and it stays known
while the catalog grows.
-/

/-- A method or constructor that a catalog holds under its hash, among the
registered or among the closed ones. -/
def MethodEntry.IsKnown (entry : MethodEntry) (catalog : Catalog) : Prop :=
  catalog.methods[entry.hash]? = some entry ∨ catalog.closedMethods[entry.hash]? = some entry

namespace MethodEntry.IsKnown

variable {entry : MethodEntry} {before after : Catalog}

theorem grow (known : entry.IsKnown before) (grows : before.Grows after) : entry.IsKnown after := by
  rcases known with registered | closed
  · exact .inl (grows.methods ▸ registered)
  · exact .inr (grows.closedMethods _ _ closed)

/-- What is known is found.  Another method may be found in its place: a
registered one hides a closed one with the same hash. -/
theorem isSome_method? (known : entry.IsKnown before) :
    (before.method? entry.hash).isSome = true := by
  unfold Catalog.method?
  rcases known with registered | closed
  · rw [registered]
    rfl
  · cases before.methods[entry.hash]? with
    | some => rfl
    | none => exact Option.isSome_iff_exists.mpr ⟨entry, closed⟩

end MethodEntry.IsKnown

/-- A member whose hash stands in the table that its access goes to. -/
def MemberAccess.IsKnown (access : MemberAccess) (catalog : Catalog) : Prop :=
  match access with
  | .field hash => (catalog.field? hash).isSome = true
  | .property hash _ _ _ => (catalog.property? hash).isSome = true
  | .staticProperty hash _ _ => (catalog.property? hash).isSome = true

theorem MemberAccess.IsKnown.grow {access : MemberAccess} (known : access.IsKnown before)
    (grows : before.Grows after) : access.IsKnown after := by
  cases access with
  | field hash => rwa [IsKnown, Catalog.field?, grows.fields]
  | property hash | staticProperty hash =>
    rwa [IsKnown, Catalog.property?, grows.properties]

/-! ## Members of types -/

/-- A type whose members a catalog holds under their hashes. -/
structure HostType.IsListed (type : HostType) (catalog : Catalog) : Prop where
  constructors : ∀ method : MethodEntry, method ∈ type.constructors ->
    catalog.methods[method.hash]? = some method
  methods : ∀ method : MethodEntry, method ∈ type.methods ->
    catalog.methods[method.hash]? = some method
  fields : ∀ field, field ∈ type.fields -> catalog.fields[field.hash]? = some field
  properties : ∀ property, property ∈ type.properties ->
    catalog.properties[property.hash]? = some property

namespace Catalog

variable {catalog : Catalog} {hash owner : TypeHash} {type : HostType} {arguments : List TypeHash}
  {name : String}

theorem Coherent.isListed (coherent : catalog.Coherent)
    (found : catalog.get? hash = some type) : type.IsListed catalog := by
  unfold get? at found
  cases registered : catalog.types[hash]? with rw [registered] at found
  | some =>
    cases found
    exact ⟨coherent.constructors hash type registered, coherent.methods hash type registered,
      coherent.fields hash type registered, coherent.properties hash type registered⟩
  | none =>
    obtain ⟨noConstructors, noMethods, noFields, noProperties⟩ :=
      coherent.instances hash type found
    refine ⟨?_, ?_, ?_, ?_⟩
    · exact fun _ member => absurd (noConstructors ▸ member) List.not_mem_nil
    · exact fun _ member => absurd (noMethods ▸ member) List.not_mem_nil
    · exact fun _ member => absurd (noFields ▸ member) List.not_mem_nil
    · exact fun _ member => absurd (noProperties ▸ member) List.not_mem_nil

theorem Coherent.isListed_declaring (coherent : catalog.Coherent)
    (declares : catalog.declaring? hash = some (type, arguments)) : type.IsListed catalog := by
  unfold declaring? at declares
  cases found : catalog.get? hash with rw [found] at declares
  | none => cases declares
  | some own =>
    cases generic : own.definition with simp only [generic] at declares
    | none =>
      cases declares
      exact coherent.isListed found
    | some =>
      obtain ⟨_, isThere, same⟩ := Option.map_eq_some_iff.mp declares
      cases same
      exact coherent.isListed isThere

theorem Coherent.isListed_ancestry (coherent : catalog.Coherent) (allowed : Nat) (hash : TypeHash)
    (member : (type, arguments) ∈ catalog.ancestry allowed hash) : type.IsListed catalog := by
  induction allowed generalizing hash with
  | zero => exact nomatch member
  | succ _ ih =>
    rw [ancestry] at member
    cases declares : catalog.declaring? hash with
    | none =>
      rw [declares] at member
      exact nomatch member
    | some declaring =>
      obtain ⟨own, _⟩ := declaring
      rw [declares] at member
      rcases List.mem_cons.mp member with here | above
      · cases here
        exact coherent.isListed_declaring declares
      · cases isBase : own.base with simp only [isBase] at above
        | none => exact absurd above List.not_mem_nil
        | some base => exact ih base above

variable {candidate : Candidate}

theorem exists_of_mem_methodsNamed (member : candidate ∈ catalog.methodsNamed owner name) :
    ∃ type : HostType, ∃ arguments, (type, arguments) ∈ catalog.hierarchy owner
      ∧ candidate.method ∈ type.methods ∧ candidate.method.name = name := by
  obtain ⟨⟨type, arguments⟩, inside, chosen⟩ := List.mem_flatMap.mp member
  obtain ⟨method, kept, rfl⟩ := List.mem_map.mp chosen
  obtain ⟨declared, named⟩ := List.mem_filter.mp kept
  exact ⟨type, arguments, inside, declared, of_decide_eq_true named⟩

variable (coherent : catalog.Coherent)

include coherent

theorem Coherent.registered_of_mem_methodsNamed
    (member : candidate ∈ catalog.methodsNamed owner name) :
    catalog.methods[candidate.method.hash]? = some candidate.method := by
  obtain ⟨_, _, inside, declared, _⟩ := exists_of_mem_methodsNamed member
  exact (coherent.isListed_ancestry _ owner inside).methods _ declared

theorem Coherent.registered_of_mem_constructors (member : candidate ∈ catalog.constructors owner) :
    catalog.methods[candidate.method.hash]? = some candidate.method := by
  unfold Catalog.constructors at member
  cases declares : catalog.declaring? owner with
  | none =>
    rw [declares] at member
    exact nomatch member
  | some declaring =>
    rw [declares] at member
    obtain ⟨method, declared, rfl⟩ := List.mem_map.mp member
    exact (coherent.isListed_declaring declares).constructors method declared

theorem Coherent.field?_of_findField? (found : catalog.findField? owner name = some field) :
    catalog.field? field.hash = some field := by
  obtain ⟨⟨_, _⟩, inside, chosen⟩ := List.exists_of_findSome?_eq_some found
  exact (coherent.isListed_ancestry _ owner inside).fields field (List.mem_of_find?_eq_some chosen)

theorem Coherent.property?_of_findProperty?
    (found : catalog.findProperty? owner name = some property) :
    catalog.property? property.hash = some property := by
  obtain ⟨⟨_, _⟩, inside, chosen⟩ := List.exists_of_findSome?_eq_some found
  exact (coherent.isListed_ancestry _ owner inside).properties property
    (List.mem_of_find?_eq_some chosen)

theorem Coherent.overriding_eq_or_registered (type : TypeHash)
    (method : MethodEntry) : catalog.overriding type method = method
      ∨ catalog.methods[(catalog.overriding type method).hash]?
        = some (catalog.overriding type method) := by
  unfold overriding
  cases found : (catalog.hierarchy type).findSome? fun entry =>
      entry.1.methods.find? fun other =>
        other.name = method.name && other.signature == method.signature with
  | none => exact .inl rfl
  | some other =>
    obtain ⟨⟨_, _⟩, inside, chosen⟩ := List.exists_of_findSome?_eq_some found
    exact .inr ((coherent.isListed_ancestry _ type inside).methods other
      (List.mem_of_find?_eq_some chosen))

omit coherent

/-- A closed method is the method itself when there are no type arguments, and
stands among the closed ones otherwise. -/
theorem closeMethod_found
    (found : (catalog.lookup (closeMethod method arguments)).1 = some closed) :
    arguments = [] ∧ closed = method
      ∨ (catalog.lookup (closeMethod method arguments)).2.closedMethods[
        TypeHash.ofClosedMethod method.hash arguments]? = some closed := by
  rw [lookup_closeMethod] at found ⊢
  by_cases none : arguments.isEmpty = true
  · rw [if_pos none] at found
    cases found
    exact .inl ⟨List.isEmpty_iff.mp none, rfl⟩
  · right
    rw [if_neg none] at found ⊢
    by_cases wrong : method.genericParameters.length ≠ arguments.length
    · rw [if_pos wrong] at found
      cases found
    · rw [if_neg wrong] at found ⊢
      simp only at found ⊢
      cases known : catalog.closedMethods[TypeHash.ofClosedMethod method.hash arguments]? with
      | some =>
        rw [known] at found
        cases found
        exact known
      | none =>
        rw [known] at found
        cases found
        exact Std.HashMap.getElem?_insert_self

end Catalog

theorem Catalog.Coherent.isKnown_closed {catalog : Catalog} (coherent : catalog.Coherent)
    {hash : TypeHash} (stored : catalog.closedMethods[hash]? = some closed) :
    closed.IsKnown catalog := by
  refine .inr ?_
  rw [coherent.closedMethods _ _ stored]
  exact stored

variable {candidates : List Candidate}

theorem Overload.mem_of_select (selected : select catalog requested candidates = some candidate) :
    candidate ∈ candidates := by
  -- The best pair found so far always comes from the scored candidates.
  have chosen (scored : List (Nat × Candidate)) (best : Option (Nat × Candidate))
      (pair : Nat × Candidate) (last : scored.foldl better best = some pair) :
      pair ∈ scored ∨ best = some pair := by
    induction scored generalizing best with
    | nil => exact .inr last
    | cons head _ ih =>
      rcases ih (better best head) last with inside | now
      · exact .inl (.tail _ inside)
      · cases best with
        | none =>
          cases now
          exact .inl (.head _)
        | some old =>
          by_cases cheaper : head.1 < old.1
          · rw [better, if_pos cheaper] at now
            cases now
            exact .inl (.head _)
          · rw [better, if_neg cheaper] at now
            exact .inr now
  obtain ⟨⟨_, _⟩, last, rfl⟩ := Option.map_eq_some_iff.mp selected
  rcases chosen _ none _ last with inside | impossible
  · obtain ⟨_, member, scores⟩ := List.mem_filterMap.mp inside
    obtain ⟨distance, _, same⟩ := Option.map_eq_some_iff.mp scores
    cases same
    exact member
  · cases impossible

/-! ## Answers to the compiler -/

namespace Compile

variable {outer : Surroundings} {origin : Catalog} {before after : Body} {owner : TypeHash}
  {requested arguments : List TypeHash} {entry method closed : MethodEntry} {depth count : Nat}
  {finished : Body} {hasReceiver : Bool} {index : UInt8}

theorem catalog_ok (runs : catalog before = .ok answer after) :
    answer = before.workspace.catalog ∧ after = before := by
  cases runs
  exact ⟨rfl, rfl⟩

variable {name : String}

theorem selectOverload_ok
    (runs : selectOverload owner name requested candidates before = .ok entry after) :
    after = before ∧ ∃ candidate, candidate ∈ candidates ∧ candidate.method = entry := by
  obtain ⟨_, middle, asked, runs⟩ := ok_of_bind runs
  obtain ⟨rfl, rfl⟩ := catalog_ok asked
  cases selected : Overload.select middle.workspace.catalog requested candidates with
  | none =>
    rw [selected] at runs
    obtain ⟨_, _, _, impossible⟩ := ok_of_bind runs
    cases impossible
  | some candidate =>
    rw [selected] at runs
    cases runs
    exact ⟨rfl, candidate, Overload.mem_of_select selected, rfl⟩

theorem closeMethod_stored
    (runs : closeMethod method arguments owner requested before = .ok closed after) :
    before.workspace.catalog.Grows after.workspace.catalog
      ∧ (arguments = [] ∧ closed = method ∨ after.workspace.catalog.closedMethods[
        TypeHash.ofClosedMethod method.hash arguments]? = some closed) := by
  obtain ⟨answer, _, asked, runs⟩ := ok_of_bind runs
  obtain ⟨workspace, lookedUp, rfl⟩ := make_ok asked
  cases answer with
  | none =>
    obtain ⟨_, _, _, impossible⟩ := ok_of_bind runs
    cases impossible
  | some =>
    cases runs
    injection lookedUp with sameAnswer sameWorkspace
    subst sameWorkspace
    exact ⟨Catalog.extends_closeMethod _ _ _, Catalog.closeMethod_found sameAnswer⟩

theorem resolveAll_ne_nil (given : ¬ descriptors.isEmpty = true)
    (resolved : resolveAll descriptors before = .ok types after) : types ≠ [] := by
  obtain ⟨_, made, _⟩ := make_ok resolved
  cases descriptors with
  | nil => exact absurd rfl given
  | cons =>
    obtain ⟨_, _, _, later⟩ := ok_of_bind made
    obtain ⟨types, _, _, answered⟩ := ok_of_bind later
    cases answered
    exact List.cons_ne_nil _ _

variable {method : MethodSymbol}

/-- The method that a call selects is a candidate, taken as it is or closed over
type arguments. -/
theorem hostMethod_cases (sound : before.Sound outer origin)
    (runs : hostMethod owner method before = .ok entry after) :
    ∃ first : Body, ∃ candidate, first.Sound outer origin
      ∧ candidate ∈ first.workspace.catalog.methodsNamed owner method.name
      ∧ candidate.method.isStatic = method.isStatic
      ∧ first.workspace.catalog.Grows after.workspace.catalog
      ∧ (candidate.method.isGenericDefinition = false ∧ candidate.method = entry
        ∨ ∃ arguments middle, resolveAll method.typeArguments first = .ok arguments middle
          ∧ after.workspace.catalog.closedMethods[
            TypeHash.ofClosedMethod candidate.method.hash arguments]? = some entry) := by
  obtain ⟨requested, first, resolved, runs⟩ := ok_of_bind runs
  obtain ⟨firstSound, _⟩ := quiet_asks.resolveAll _ before requested first sound resolved
  obtain ⟨catalog, _, asked, runs⟩ := ok_of_bind runs
  obtain ⟨rfl, rfl⟩ := catalog_ok asked
  obtain ⟨_, third, selecting, runs⟩ := ok_of_bind runs
  obtain ⟨rfl, candidate, member, rfl⟩ := selectOverload_ok selecting
  obtain ⟨inside, isStatic⟩ := List.mem_filter.mp member
  refine ⟨third, candidate, firstSound, inside, beq_iff_eq.mp isStatic, ?_⟩
  by_cases generic : candidate.method.isGenericDefinition = true
  · simp only [if_pos generic] at runs
    by_cases missing : method.typeArguments.isEmpty = true
    · simp only [if_pos missing] at runs
      cases runs
    · simp only [if_neg missing] at runs
      obtain ⟨arguments, fourth, resolving, given⟩ := ok_of_bind runs
      obtain ⟨_, extended, _⟩ := quiet_asks.resolveAll _ third arguments fourth firstSound resolving
      obtain ⟨closed, ⟨noArguments, _⟩ | stored⟩ := closeMethod_stored given
      · exact absurd noArguments (resolveAll_ne_nil missing resolving)
      · exact ⟨extended.catalog.trans closed, .inr ⟨arguments, fourth, resolving, stored⟩⟩
  · simp only [if_neg generic] at runs
    cases runs
    exact ⟨.refl _, .inl ⟨Bool.eq_false_iff.mpr generic, rfl⟩⟩

/-- A member is a field, or a property where there is no field of its name. -/
theorem memberAccess_cases (runs : memberAccess symbol before = .ok access after) :
    ∃ owner, resolve symbol.containingType before = .ok owner after
      ∧ ((∃ field, after.workspace.catalog.findField? owner symbol.name = some field
          ∧ access = .field field.hash)
        ∨ after.workspace.catalog.findField? owner symbol.name = none ∧ ∃ property,
            after.workspace.catalog.findProperty? owner symbol.name = some property
              ∧ access = .ofProperty after.workspace.catalog property) := by
  obtain ⟨owner, _, resolved, runs⟩ := ok_of_bind runs
  obtain ⟨catalog, second, asked, runs⟩ := ok_of_bind runs
  obtain ⟨rfl, rfl⟩ := catalog_ok asked
  cases isField : second.workspace.catalog.findField? owner symbol.name with
  | some field =>
    rw [isField] at runs
    by_cases static : symbol.isStatic = true
    · simp only [if_pos static] at runs
      cases runs
    · simp only [if_neg static] at runs
      cases runs
      exact ⟨owner, resolved, .inl ⟨field, isField, rfl⟩⟩
  | none =>
    rw [isField] at runs
    cases isProperty : second.workspace.catalog.findProperty? owner symbol.name with
    | none =>
      simp only [isProperty] at runs
      obtain ⟨_, _, _, impossible⟩ := ok_of_bind runs
      cases impossible
    | some property =>
      simp only [isProperty] at runs
      cases runs
      exact ⟨owner, resolved, .inr ⟨isField, property, isProperty, rfl⟩⟩

theorem builderMethod_cases {builder : TypeHash}
    (runs : builderMethod builder name requested before = .ok entry after) :
    after = before ∧ ∃ candidate,
      candidate ∈ before.workspace.catalog.methodsNamed builder name
        ∧ candidate.method = entry := by
  obtain ⟨_, _, asked, given⟩ := ok_of_bind runs
  obtain ⟨rfl, rfl⟩ := catalog_ok asked
  exact selectOverload_ok given

variable {value : Operation} {shape : HoleShape}

/-- The method that appends a hole is a candidate closed over the type of the
value. -/
theorem appendHole_cases (sound : before.Sound outer origin) {builder : TypeHash}
    {arguments : List HoleArgument} {count : UInt8}
    (runs : appendHole builder value arguments before = .ok (entry, shape, count) after) :
    HoleShape.ofArguments? arguments = some shape ∧ ∃ first : Body, ∃ candidate type,
        first.Sound outer origin ∧ candidate ∈ first.workspace.catalog.methodsNamed builder
            SystemTypes.appendFormattedName
          ∧ count = (shape.requested type).length.toUInt8
          ∧ first.workspace.catalog.Grows after.workspace.catalog
          ∧ after.workspace.catalog.closedMethods[
            TypeHash.ofClosedMethod candidate.method.hash [type]]? = some entry := by
  unfold appendHole at runs
  cases shaped : HoleShape.ofArguments? arguments with rw [shaped] at runs
  | none => cases runs
  | some =>
    obtain ⟨type, first, typed, runs⟩ := ok_of_bind runs
    obtain ⟨firstSound, _⟩ := quiet_asks.staticType _ before type first sound typed
    obtain ⟨_, second, selecting, remaining⟩ := ok_of_bind runs
    obtain ⟨rfl, candidate, member, rfl⟩ := builderMethod_cases selecting
    obtain ⟨_, _, closing, given⟩ := ok_of_bind remaining
    obtain ⟨grows, ⟨impossible, _⟩ | stored⟩ := closeMethod_stored closing
    · cases impossible
    · cases given
      exact ⟨rfl, second, candidate, type, firstSound, member, rfl, grows, stored⟩

/-! ## Answers in a finished body -/

/-- A host method that a call names was selected on the type that the call
names. -/
theorem Obtains.hostMethod (obtained : Obtains outer origin depth finished
      (callTarget outer hasReceiver method count) (.host entry)) :
    ∃ owner, ∃ (before : Body) (after : Body), before.Sound outer origin
        ∧ (finished.workspace.catalog.lookup (Catalog.resolve method.containingType)).1 = some owner
        ∧ hostMethod owner method before = .ok entry after
        ∧ after.workspace.catalog.Grows finished.workspace.catalog := by
  obtain ⟨_, after, sound, _, runs, _, extended, extending⟩ := obtained.run
  obtain ⟨middle, isMiddle, isHost | ⟨_, isDeclared⟩⟩ := callTarget_ok runs
  · obtain ⟨owner, _, found, selected, same⟩ := isHost
    cases same
    have middleSound : middle.Sound outer origin := by
      rw [isMiddle]
      have grown := sound.origin.trans ((Catalog.regular_resolve method.containingType).closes.extends _)
      refine { sound with callees := ?_, origin := grown }
      intro callee member
      obtain ⟨symbol, began, ended, made, started, finishes⟩ := sound.callees callee member
      exact ⟨symbol, began, ended, made, started,
        finishes.trans ((Catalog.regular_resolve method.containingType).closes.extends _)⟩
    refine ⟨owner, middle, after, middleSound, ?_, selected, extending.catalog⟩
    rw [← found]
    exact (Catalog.regular_resolve _).stable _ _ (extended.trans extending).catalog.toSameRegistered
  · obtain ⟨_, _, _, ⟨impossible, _⟩ | ⟨_, _, _, _, _, impossible, _⟩⟩ :=
      declaredMethod_ok isDeclared
    · cases impossible
    · cases impossible

variable {usable : MemberAccess -> Bool} {refusal : String}

theorem Obtains.accessed (obtained : Obtains outer origin depth finished (do
      let access ← memberAccess symbol
      if usable access then return access else unsupported refusal) access) :
    ∃ before, ∃ after : Body, after.Sound outer origin
      ∧ after.workspace.catalog.Grows finished.workspace.catalog
      ∧ memberAccess symbol before = .ok access after := by
  obtain ⟨before, after, _, _, runs, sound, _, extending⟩ := obtained.run
  obtain ⟨found, middle, accessed, given⟩ := ok_of_bind runs
  by_cases isUsable : usable found = true
  · rw [if_pos isUsable] at given
    cases given
    exact ⟨before, after, sound, extending.catalog, accessed⟩
  · rw [if_neg isUsable] at given
    cases given

section

variable (coherent : origin.Coherent) {symbol : MemberSymbol} {access : MemberAccess}
  {entry : MethodEntry} {builder : TypeHash}

include coherent

theorem Obtains.knownMember (obtained : Obtains outer origin depth finished (do
      let access ← memberAccess symbol
      if usable access then return access else unsupported refusal) access) :
    access.IsKnown finished.workspace.catalog := by
  obtain ⟨_, _, sound, grown, accessed⟩ := obtained.accessed
  have isCoherent := sound.origin.coherent coherent
  refine MemberAccess.IsKnown.grow ?_ grown
  obtain ⟨_, _, ⟨field, isField, rfl⟩ | ⟨_, property, isProperty, rfl⟩⟩ :=
    memberAccess_cases accessed
  · exact Option.isSome_iff_exists.mpr ⟨field, isCoherent.field?_of_findField? isField⟩
  · have found := Option.isSome_iff_exists.mpr
      ⟨property, isCoherent.property?_of_findProperty? isProperty⟩
    unfold MemberAccess.ofProperty
    split <;> exact found

theorem Obtains.hostTarget {hasReceiver : Bool} {method : MethodSymbol} {count : Nat}
    (obtained : Obtains outer origin depth finished
      (callTarget outer hasReceiver method count) (.host entry)) :
    entry.IsKnown finished.workspace.catalog := by
  obtain ⟨_, _, _, sound, _, selected, grows⟩ := obtained.hostMethod
  obtain ⟨first, candidate, firstSound, member, _, grown, chosen⟩ := hostMethod_cases sound selected
  have isCoherent := firstSound.origin.coherent coherent
  rcases chosen with ⟨_, rfl⟩ | ⟨arguments, _, _, stored⟩
  · exact .grow (.inl (isCoherent.registered_of_mem_methodsNamed member)) (grown.trans grows)
  · exact ((grown.coherent isCoherent).isKnown_closed stored).grow grows

theorem Obtains.constructorOf {symbol : MethodSymbol} {owner hash : TypeHash}
    (obtained : Obtains outer origin depth finished (constructorOf symbol) (owner, hash)) :
    ∃ entry : MethodEntry, entry.hash = hash ∧ entry.IsKnown finished.workspace.catalog := by
  obtain ⟨_, _, _, _, runs, sound, _, extending⟩ := obtained.run
  obtain ⟨type, first, _, runs⟩ := ok_of_bind runs
  obtain ⟨_, _, _, runs⟩ := ok_of_bind runs
  obtain ⟨catalog, third, asked, runs⟩ := ok_of_bind runs
  obtain ⟨rfl, rfl⟩ := catalog_ok asked
  obtain ⟨selected, fourth, selecting, given⟩ := ok_of_bind runs
  obtain ⟨rfl, candidate, member, rfl⟩ := selectOverload_ok selecting
  cases given
  have registered := (sound.origin.coherent coherent).registered_of_mem_constructors member
  exact ⟨candidate.method, rfl, .grow (.inl registered) extending.catalog⟩

theorem Obtains.textConstructor
    (obtained : Obtains outer origin depth finished (textConstructor builder) entry) :
    entry.IsKnown finished.workspace.catalog := by
  obtain ⟨_, _, _, _, runs, sound, _, extending⟩ := obtained.run
  obtain ⟨catalog, first, asked, given⟩ := ok_of_bind runs
  obtain ⟨rfl, rfl⟩ := catalog_ok asked
  obtain ⟨rfl, candidate, member, rfl⟩ := selectOverload_ok given
  exact .grow (.inl ((sound.origin.coherent coherent).registered_of_mem_constructors member))
    extending.catalog

theorem Obtains.builderMethod {requested : List TypeHash}
    (obtained : Obtains outer origin depth finished (builderMethod builder name requested) entry) :
    entry.IsKnown finished.workspace.catalog := by
  obtain ⟨_, _, sound, _, runs, _, _, extending⟩ := obtained.run
  obtain ⟨rfl, candidate, member, rfl⟩ := builderMethod_cases runs
  exact .grow (.inl ((sound.origin.coherent coherent).registered_of_mem_methodsNamed member))
    extending.catalog

theorem Obtains.appendHole {arguments : List HoleArgument} {count : UInt8}
    (obtained : Obtains outer origin depth finished (appendHole builder value arguments)
      (entry, shape, count)) :
    entry.IsKnown finished.workspace.catalog := by
  obtain ⟨_, _, sound, _, runs, afterSound, _, extending⟩ := obtained.run
  obtain ⟨_, _, _, _, _, _, _, _, stored⟩ := appendHole_cases sound runs
  exact ((afterSound.origin.coherent coherent).isKnown_closed stored).grow extending.catalog

end

/-- A call of a declared method other than the one at hand goes to a method in
the table. -/
theorem Obtains.declaredTarget (obtained : Obtains outer origin depth finished
      (callTarget outer hasReceiver method count) (.declared index)) :
    ∃ callee, finished.callees[index.toNat]? = some callee := by
  obtain ⟨_, _, _, _, runs, _, _, extending⟩ := obtained.run
  obtain ⟨middle, _, isHost | ⟨_, isDeclared⟩⟩ := callTarget_ok runs
  · obtain ⟨_, _, _, _, impossible⟩ := isHost
    cases impossible
  · obtain ⟨_, _, _, ⟨impossible, _⟩ | ⟨callee, _, _, _, _, same, _, stored⟩⟩ :=
      declaredMethod_ok isDeclared
    · cases impossible
    · cases same
      exact ⟨callee, extending.callees _ _ stored⟩

theorem Obtains.lambdaIndex (obtained : Obtains outer origin depth finished
      (lambdaIndex outer.session symbol) index) : index.toNat < finished.lambdas.length := by
  obtain ⟨_, _, sound, _, runs, _, _, extending⟩ := obtained.run
  have inside := (lambdaIndex_ok sound runs).1
  exact (List.getElem?_eq_some_iff.mp (extending.lambdas _ _ (List.getElem?_eq_getElem inside))).1

end Compile
end OpMachine
