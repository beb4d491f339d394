import OpMachine.Proofs.CatalogHistory

namespace OpMachine

/-!
# Display names

The display name of a type is the text of its descriptor.  A definition is found
by its key, its name and behind a backtick the number of its parameters.  What a key
says is unambiguous as long as a descriptor has no backtick in its names and takes
`array` for no generic type.
-/

namespace TypeDefinition

/-- Definitions as they are put together, step by step. -/
inductive Made : TypeDefinition -> Prop
  | ofClass : Made (ofClass word)
  | ofValueType : Made (ofValueType word)
  | ofInterface : Made (ofInterface word)
  | ofStatic : Made (ofStatic word)
  | ofPrimitive : Made (ofPrimitive word isValueType)
  | ofDelegate : Made (ofDelegate word parameters returnType)
  | ofArray : Made (ofArray rank)
  | abstract : Made definition -> Made definition.abstract
  | sealed : Made definition -> Made definition.sealed
  | nullable : Made definition -> Made definition.nullable
  | derivedFrom : Made definition -> Made (definition.derivedFrom parent)
  | genericOver : Made definition -> Made (definition.genericOver names)
  | addMethod : Made definition -> Made (definition.addMethod method action)
  | addStaticProperty : Made definition -> Made (definition.addStaticProperty word type action)
  | addProperty : Made definition -> Made (definition.addProperty word type access isVirtual)
  | addWritableProperty : Made definition -> Made (definition.addWritableProperty word type access)
  | addField : Made definition -> Made (definition.addField word type access)
  | addConstructorAction :
      Made definition -> Made (definition.addConstructorAction parameters action)

variable (definition : TypeDefinition)

/-- What has a rank is an array, and every array is called so. -/
def Consistent : Prop :=
  (definition.arrayRank ≠ 0 -> definition.traits.isArray = true)
    ∧ (definition.traits.isArray = true -> definition.name = "array")

def isGenericOver (arity : Nat) : Bool :=
  definition.traits.isGenericDefinition && definition.genericParameters.length == arity

variable {definition : TypeDefinition} {name : String}

theorem consistent_of_made (made : Made definition) : definition.Consistent := by
  induction made with
  | ofClass | ofValueType | ofInterface | ofStatic | ofPrimitive | ofDelegate | ofArray =>
    simp [Consistent, ofClass, ofValueType, ofInterface, ofStatic, ofPrimitive, ofDelegate, ofArray]
  | _ _ ih => exact ih

theorem number_inj (plain : '\x60' ∉ name.toList)
    (same : other ++ "`" ++ toString (number : Nat) = name ++ "`" ++ toString (arity : Nat)) :
    other = name ∧ number = arity := by
  have digits : '\x60' ∉ Nat.toDigits 10 arity := fun member =>
    nomatch Nat.isDigit_of_mem_toDigits (by decide) (by decide) member
  have lists : name.toList ++ '\x60' :: Nat.toDigits 10 arity
      = other.toList ++ '\x60' :: Nat.toDigits 10 number := by
    simpa [Nat.toString_eq_ofList_toDigits] using (congrArg String.toList same).symm
  obtain ⟨sameName, _, sameNumber⟩ := (List.append_cons_inj_of_notMem plain digits).mp lists
  refine ⟨String.toList_inj.mp sameName.symm, ?_⟩
  rw [← @Nat.ofDigitChars_ten_toDigits number, ← sameNumber, Nat.ofDigitChars_ten_toDigits]

/-- A generic type whose key has this name and number has them itself, unless it is
that of the arrays of this rank. -/
theorem of_key_eq_number (plain : '\x60' ∉ name.toList)
    (isKey : definition.key = name ++ "`" ++ toString (arity : Nat))
    (isGeneric : definition.genericParameters.length = count + 1) :
    (definition.arrayRank = arity ∧ definition.arrayRank ≠ 0 ∧ name = "array")
      ∨ definition.arrayRank = 0 ∧ definition.name = name ∧ count + 1 = arity := by
  unfold key genericKey at isKey
  rw [isGeneric] at isKey
  split at isKey
  next noArray => exact .inr ⟨noArray, number_inj plain isKey⟩
  next isArray =>
    obtain ⟨rfl, isRank⟩ := @number_inj _ "array" _ _ plain isKey
    exact .inl ⟨isRank, isArray, rfl⟩

/-- A type whose key has no number is shown by its key. -/
theorem definitionText_eq_key (plain : '\x60' ∉ definition.key.toList) :
    Catalog.definitionText definition = definition.key := by
  unfold key genericKey TypeHash.arrayKey at *
  split at plain
  next noArray =>
    split at plain
    next none => simp [Catalog.definitionText, noArray, List.length_eq_zero_iff.mp none]
    · simp at plain
  · simp at plain

end TypeDefinition

namespace Descriptor

mutual

/-- No name has a backtick, and `array` is not applied to arguments. -/
def Plain : Descriptor -> Prop
  | .void | .parameter _ => True
  | .named name arguments =>
      '\x60' ∉ name.toList ∧ (arguments ≠ [] -> name ≠ "array") ∧ AllPlain arguments
  | .array element _ => element.Plain

def AllPlain : List Descriptor -> Prop
  | [] => True
  | head :: tail => head.Plain ∧ AllPlain tail

end

end Descriptor

open Descriptor (length_typeRefs text texts typeRef typeRefs)

namespace Catalog

section

variable (definitions : List TypeDefinition)

/-- The definition with a key, of a system type or one of the given ones. -/
def defined? (key : String) : Option TypeDefinition :=
  (SystemTypes.definitions ++ definitions).find? (·.key = key)

mutual

/-- Whether everything in a descriptor is defined.  It mentions no generic parameter,
every name is registered with the number of its arguments, what is applied to
arguments is generic, and there are arrays of every rank. -/
def isDefined : Descriptor -> Bool
  | .void => true
  | .parameter _ => false
  | .named name arguments =>
      (defined? definitions (genericKey name arguments.length)).any (fun definition =>
        arguments.isEmpty || definition.isGenericOver arguments.length) && allDefined arguments
  | .array element rank =>
      (defined? definitions (TypeHash.arrayKey rank.toNat)).any (·.isGenericOver 1)
        && isDefined element

def allDefined : List Descriptor -> Bool
  | [] => true
  | head :: tail => isDefined head && allDefined tail

end

end

/-- A catalog of definitions that are put together in steps and share no hash. -/
structure Registers (built : Catalog) (definitions : List TypeDefinition) : Prop where
  isBuilt : build definitions = .ok built
  made : ∀ definition, definition ∈ definitions -> definition.Made
  distinct : ((SystemTypes.definitions ++ definitions).map (·.hash)).Nodup

variable {definitions : List TypeDefinition} {built catalog : Catalog} {definition : TypeDefinition}
  {Play : TypeRef -> Prop} (registers : built.Registers definitions)
  (apart : built.HashesApart Play) (composed : Composed built Play catalog)

section

include registers

theorem Registers.types (found : defined? definitions key = some definition) :
    definition.key = key ∧ definition.Consistent
      ∧ built.types[TypeHash.ofName key]? = some definition.asType := by
  have member := List.mem_of_find?_eq_some found
  have isKey : definition.key = key := by simpa using List.find?_some found
  subst isKey
  refine ⟨rfl, ?_, ?_⟩
  · have onSystem : ∀ definition, definition ∈ SystemTypes.definitions ->
        definition.Consistent := by
      unfold TypeDefinition.Consistent
      decide +kernel
    exact (List.mem_append.mp member).elim (onSystem definition)
      fun own => TypeDefinition.consistent_of_made (registers.made definition own)
  · have isSome : (TypeDefinition.registered? (SystemTypes.definitions ++ definitions)
        definition.hash).isSome :=
      List.find?_isSome.mpr ⟨definition, List.mem_reverse.mpr member, decide_eq_true rfl⟩
    obtain ⟨last, isLast⟩ := Option.isSome_iff_exists.mp isSome
    cases List.inj_on_of_nodup_map registers.distinct (TypeDefinition.mem_of_registered? isLast)
      member (TypeDefinition.hash_of_registered? isLast)
    rw [(holds_build registers.isBuilt).types]
    exact congrArg (Option.map _) isLast

theorem Registers.byName?_eq (key : String) :
    built.byName? key = (defined? definitions key).map fun _ => .ofName key := by
  have known : _ ↔ key ∈ (SystemTypes.definitions ++ definitions).map (·.key) :=
    (lists_build registers.isBuilt).keys key
  cases found : defined? definitions key with
  | none =>
    simp only [defined?, List.find?_eq_none, decide_eq_true_eq] at found
    rw [Std.HashMap.contains_eq_isSome_getElem?, List.mem_map] at known
    simpa [-List.mem_append, byName?] using
      mt known.mp fun ⟨other, member, isKey⟩ => found other member isKey
  | some definition =>
    exact byName?_of_build registers.isBuilt (List.mem_map.mpr
      ⟨definition, List.mem_of_find?_eq_some found, (registers.types found).1⟩)

/-! ## What resolves -/

theorem Registers.isSome_closeGeneric (found : defined? definitions key = some definition)
    (hashes : List TypeHash) : (built.lookup (closeGeneric (.ofName key) hashes)).1.isSome
      = definition.isGenericOver hashes.length := by
  rw [lookup_closeGeneric, (registers.types found).2.2]
  change (if definition.isGenericOver hashes.length = true then _ else _ :
    Option TypeHash × Catalog).1.isSome = _
  split
  next fits => exact fits.symm
  next fits => exact (Bool.eq_false_iff.mpr fits).symm

omit registers

mutual

theorem isSome_resolve (registers : built.Registers definitions) : ∀ descriptor : Descriptor,
    (built.lookup (resolve descriptor)).1.isSome = isDefined definitions descriptor
  | .void | .parameter _ => by
      rw [resolve]
      rfl
  | .named name arguments => by
      rw [resolve, Lookup.lookup_get_bind, registers.byName?_eq, isDefined,
        ← isSome_resolveAll registers arguments]
      cases found : defined? definitions (genericKey name arguments.length) with
      | none => rfl
      | some definition =>
        by_cases empty : arguments.isEmpty
        · cases List.isEmpty_iff.mp empty
          rw [resolveAll]
          rfl
        simp only [Option.map_some, Option.any_some, Bool.eq_false_iff.mpr empty, Bool.false_or,
          Bool.false_eq_true, if_false]
        rw [Lookup.answer_bind built (regular_resolveAll _) fun _ => regular_closeGeneric _ _]
        cases resolved : (built.lookup (resolveAll arguments)).1 with
        | none => exact (Bool.and_false _).symm
        | some hashes =>
          have arity : hashes.length = arguments.length := by
            rw [← TypeRef.signatureHashes_of_closedHashes _ (closedHashes_of_materializeAll _
              (materializeAll_of_resolveAll (holds_build registers.isBuilt) arguments resolved)),
              TypeRef.signatureHashes_eq_map, List.length_map, length_typeRefs]
          rw [Option.isSome_some, Bool.and_true]
          exact (registers.isSome_closeGeneric found hashes).trans (by rw [arity])
  | .array element rank => by
      rw [resolve, Lookup.answer_bind built (regular_resolve _) fun _ => regular_closeArray _ _,
        isDefined, ← isSome_resolve registers element]
      cases (built.lookup (resolve element)).1 with
      | none => exact (Bool.and_false _).symm
      | some hash =>
        simp only [closeArray, Option.bind_eq_bind, Option.bind_some]
        rw [Lookup.lookup_get_bind, registers.byName?_eq]
        cases found : defined? definitions (TypeHash.arrayKey rank.toNat) with
        | none => rfl
        | some => exact (registers.isSome_closeGeneric found [hash]).trans (Bool.and_true _).symm

theorem isSome_resolveAll (registers : built.Registers definitions) :
    ∀ descriptors : List Descriptor,
      (built.lookup (resolveAll descriptors)).1.isSome = allDefined definitions descriptors
  | [] => by
      rw [resolveAll]
      rfl
  | head :: tail => by
      rw [resolveAll, answer_cons (regular_resolve _) (regular_resolveAll _), allDefined,
        ← isSome_resolve registers head, ← isSome_resolveAll registers tail]
      cases (built.lookup (resolve head)).1 with
      | none => rfl
      | some => exact Option.isSome_map

end

end

/-! ## What it is shown as -/

section

include registers composed

theorem displayName_of_key (found : defined? definitions key = some definition)
    (plain : '\x60' ∉ key.toList) : catalog.displayName (.ofName key) = key := by
  obtain ⟨rfl, _, isType⟩ := registers.types found
  unfold displayName get?
  rw [composed.same.types, isType]
  exact definition.definitionText_eq_key plain

include apart

/-- The name of a closed type is put together from those of its arguments. -/
theorem displayName_closed (found : defined? definitions key = some definition)
    (inPlay : Play (.generic (.ofName key) arguments))
    (settled : Settled catalog (.generic (.ofName key) arguments)) :
    definition.genericParameters.length = arguments.length
      ∧ catalog.displayName (TypeRef.generic (.ofName key) arguments).signatureHash
        = catalog.instanceText definition.asType (TypeRef.signatureHashes arguments)
      ∧ ∀ argument, argument ∈ arguments -> Settled catalog argument := by
  have isThere := Std.HashMap.getElem?_eq_some_getElem settled
  obtain ⟨_, _, host, closing, isHash, registered, _, isArity, entry, areSettled⟩ :=
    composed.entries _ _ isThere
  cases apart.apart (.generic (.ofName key) arguments) _ inPlay closing isHash
  cases registered.symm.trans (registers.types found).2.2
  refine ⟨isArity, ?_, areSettled⟩
  -- A registered type with this hash would be another type in play.
  have absent : catalog.types[(TypeRef.generic (.ofName key) arguments).signatureHash]? = none := by
    rw [composed.same.types]
    refine Std.HashMap.getElem?_eq_none fun known => ?_
    have isType := apart.registered _ known
    unfold TypeRef.of at isType
    split at isType
    next isVoid => cases apart.apart _ _ isType inPlay isVoid.symm
    · cases apart.apart _ _ isType inPlay rfl
  unfold displayName get?
  rw [absent, TypeRef.signatureHash, isThere, entry]
  rfl

omit registers apart composed

mutual

theorem displayName_eq (registers : built.Registers definitions) (apart : built.HashesApart Play)
    (composed : Composed built Play catalog) : ∀ descriptor : Descriptor, descriptor.Plain ->
    isDefined definitions descriptor = true -> Play descriptor.typeRef ->
      Settled catalog descriptor.typeRef ->
        catalog.displayName descriptor.typeRef.signatureHash = descriptor.text
  | .void, _, _, _, _ =>
      have found : defined? definitions "void" = some _ := rfl
      displayName_of_key registers composed found (by decide)
  | .named name [], ⟨plain, _⟩, defined, _, _ => by
      rw [isDefined, Bool.and_eq_true, Option.any_eq_true] at defined
      obtain ⟨⟨_, found, _⟩, _⟩ := defined
      rw [typeRef, if_pos List.isEmpty_nil, (knows_named catalog name).1, text]
      exact displayName_of_key registers composed found plain
  | .named name (head :: tail), ⟨plain, notArray, allPlain⟩, defined, inPlay, settled => by
      rw [isDefined, Bool.and_eq_true, Option.any_eq_true] at defined
      obtain ⟨⟨definition, found, _⟩, areDefined⟩ := defined
      rw [typeRef, if_neg (by simp), TypeRef.applied, length_typeRefs] at inPlay settled ⊢
      obtain ⟨isKey, ⟨_, isCalled⟩, _⟩ := registers.types found
      obtain ⟨isArity, shown, areSettled⟩ :=
        displayName_closed registers apart composed found inPlay settled
      rw [length_typeRefs] at isArity
      rcases TypeDefinition.of_key_eq_number plain isKey isArity with ⟨_, _, isArray⟩ | ⟨_, isName, _⟩
      · exact absurd isArray (notArray (by simp))
      have noArray : ¬ definition.asType.traits.isArray = true := fun isArray =>
        notArray (by simp) (isName.symm.trans (isCalled isArray))
      rw [shown, instanceText, if_neg noArray, displayNames_eq registers apart composed _ allPlain
        areDefined (apart.arguments _ _ inPlay) areSettled, text]
      exact congrArg (· ++ _ ++ _ ++ _) isName
  | .array element rank, plain, defined, inPlay, settled => by
      rw [isDefined, Bool.and_eq_true, Option.any_eq_true] at defined
      obtain ⟨⟨definition, found, _⟩, isElement⟩ := defined
      rw [typeRef, TypeHash.arrayDefinition] at inPlay settled ⊢
      obtain ⟨isKey, ⟨isArray, _⟩, _⟩ := registers.types found
      obtain ⟨isArity, shown, areSettled⟩ :=
        displayName_closed registers apart composed found inPlay settled
      have isPlain : '\x60' ∉ "array".toList := by decide
      rcases TypeDefinition.of_key_eq_number isPlain isKey isArity with
        ⟨isRank, nonzero, _⟩ | ⟨noArray, _, isRank⟩
      · have traits : definition.asType.traits.isArray = true := isArray nonzero
        rw [shown, instanceText, if_pos traits, text, ← isRank,
          ← displayName_eq registers apart composed element plain isElement
            (apart.arguments _ _ inPlay _ (.head _)) (areSettled _ (.head _))]
        rfl
      · -- The arrays of rank one are defined by the system.
        have isSystem : (SystemTypes.definitions.find? (·.key = TypeHash.arrayKey 1)).map
            (·.arrayRank) = some 1 := by decide +kernel
        obtain ⟨system, isFound, isOne⟩ := Option.map_eq_some_iff.mp isSystem
        rw [show rank.toNat = 1 from isRank.symm, defined?, List.find?_append, isFound] at found
        cases found
        cases noArray.symm.trans isOne

theorem displayNames_eq (registers : built.Registers definitions) (apart : built.HashesApart Play)
    (composed : Composed built Play catalog) : ∀ descriptors : List Descriptor, Descriptor.AllPlain descriptors ->
    allDefined definitions descriptors = true ->
      (∀ type, type ∈ typeRefs descriptors -> Play type) ->
      (∀ type, type ∈ typeRefs descriptors -> Settled catalog type) ->
      (TypeRef.signatureHashes (typeRefs descriptors)).map catalog.displayName = texts descriptors
  | [], _, _, _, _ => rfl
  | head :: tail, ⟨plain, allPlain⟩, defined, inPlay, settled => by
      obtain ⟨isDefined, areDefined⟩ := Bool.and_eq_true_iff.mp defined
      obtain ⟨here, later⟩ := List.forall_mem_cons.mp inPlay
      obtain ⟨isSettled, areSettled⟩ := List.forall_mem_cons.mp settled
      exact congrArg₂ List.cons
        (displayName_eq registers apart composed head plain isDefined here isSettled)
        (displayNames_eq registers apart composed tail allPlain areDefined later areSettled)

end

end

include registers apart

/-- A type is shown as it is written.  Whatever was asked of a catalog before, a
descriptor resolves exactly if all that it mentions is defined, and then its text is
the display name of its type. -/
theorem displayName_resolve {requests : List Request}
    (asked : ∀ request, request ∈ requests -> Play request.descriptor.typeRef)
    {descriptor : Descriptor} (plain : descriptor.Plain) (inPlay : Play descriptor.typeRef) :
    let answer := (built.after requests).lookup (resolve descriptor)
    (∀ hash, answer.1 = some hash -> answer.2.displayName hash = descriptor.text)
      ∧ (answer.1 = none ↔ isDefined definitions descriptor = false) := by
  have holds := holds_build registers.isBuilt
  have empty : Composed built Play built :=
    ⟨.refl built, fun hash type found => by rw [holds.instances] at found; cases found⟩
  have before := composed_after apart holds requests empty asked
  obtain ⟨composed, _, good⟩ := keeping_resolve apart holds descriptor before inPlay
  have isSome := isSome_resolve registers descriptor
  rw [← (regular_resolve descriptor).stable _ _ before.same] at isSome
  rw [← isSome, Option.isSome_eq_false_iff, Option.isNone_iff_eq_none]
  refine ⟨fun hash answers => ?_, .rfl⟩
  obtain ⟨rfl, settled⟩ := good hash answers
  rw [answers] at isSome
  exact displayName_eq registers apart composed descriptor plain isSome.symm inPlay settled

omit registers apart

/-- Arrays of arrays of integers are shown as `int[][]`. -/
theorem nestedArrays_displayName : ∃ built, build [] = .ok built ∧ ∃ hash,
    let answer := (built.after [.type (.array .int 1)]).lookup (resolve (.array (.array .int 1) 1))
    answer.1 = some hash ∧ answer.2.displayName hash = "int[][]" := by
  obtain ⟨built, isBuilt⟩ := exists_build_nil
  have asked : ∀ request, request ∈ [Request.type (.array .int 1)] ->
      request.descriptor.typeRef ∈ nestedArrays :=
    List.forall_mem_singleton.mpr (List.mem_cons_of_mem _ List.mem_cons_self)
  have plain : (Descriptor.array (.array .int 1) 1).Plain :=
    ⟨by decide, fun nonempty => absurd rfl nonempty, trivial⟩
  have defined : isDefined [] (.array (.array .int 1) 1) = true := by decide +kernel
  obtain ⟨shown, resolves⟩ := displayName_resolve ⟨isBuilt, by simp, by decide +kernel⟩
    (hashesApart_nestedArrays isBuilt) asked plain List.mem_cons_self
  obtain ⟨hash, answers⟩ := Option.ne_none_iff_exists'.mp fun isNone =>
    Bool.noConfusion (defined.symm.trans (resolves.mp isNone))
  exact ⟨built, isBuilt, hash, answers, shown hash answers⟩

end Catalog
end OpMachine
