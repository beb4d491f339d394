import OpMachine.Proofs.EvaluatedParts

namespace OpMachine

/-!
# The identity of a type

A type is written as a descriptor, as a reference in the signature of a member,
and as the hash of a definition closed over arguments, and an array carries it at
run time.  Four recursions compute its hash.  They agree wherever they have an
answer: what a descriptor denotes is the hash of the reference of the same shape,
and the hash of the arrays that are created for it.
-/

namespace TypeRef

mutual

theorem signatureHash_of_closedHash : ∀ (type : TypeRef) {hash : TypeHash},
    type.closedHash = some hash -> type.signatureHash = hash
  | .void, _, closed | .concrete _, _, closed => Option.some.inj closed
  | .typeParameter _, _, closed | .methodParameter _, _, closed => nomatch closed
  | .generic definition arguments, _, closed => by
      rw [closedHash, Option.map_eq_some_iff] at closed
      obtain ⟨_, isHashes, rfl⟩ := closed
      rw [signatureHash, signatureHashes_of_closedHashes arguments isHashes]

theorem signatureHashes_of_closedHashes : ∀ (types : List TypeRef) {hashes : List TypeHash},
    closedHashes types = some hashes -> signatureHashes types = hashes
  | [], _, closed => Option.some.inj closed
  | head :: tail, _, closed => by
      rw [closedHashes] at closed
      split at closed
      · rename_i hash hashes isHead isTail
        cases closed
        rw [signatureHashes, signatureHash_of_closedHash head isHead,
          signatureHashes_of_closedHashes tail isTail]
      · cases closed

end

mutual

theorem isSome_closedHash : ∀ type : TypeRef, type.closedHash.isSome = !type.isOpen
  | .void | .concrete _ | .typeParameter _ | .methodParameter _ => rfl
  | .generic definition arguments => by
      rw [closedHash, isOpen, Option.isSome_map, isSome_closedHashes arguments]

theorem isSome_closedHashes : ∀ types : List TypeRef,
    (closedHashes types).isSome = !anyOpen types
  | [] => rfl
  | head :: tail => by
      rw [closedHashes, anyOpen, Bool.not_or, ← isSome_closedHash head, ← isSome_closedHashes tail]
      cases head.closedHash <;> cases closedHashes tail <;> rfl

end

theorem substitute_of (typeArguments methodArguments : List TypeHash) (type : TypeHash) :
    (of type).substitute typeArguments methodArguments = of type := by
  unfold of
  split <;> rfl

section

variable (typeArguments methodArguments : List TypeHash)

mutual

/-- Arguments are closed, so substituting them one list after the other is
substituting them at once. -/
theorem substitute_substitute : ∀ type : TypeRef,
    (type.substitute typeArguments []).substitute [] methodArguments
      = type.substitute typeArguments methodArguments
  | .void | .concrete _ | .methodParameter _ => rfl
  | .typeParameter index => by
      simp only [substitute]
      cases typeArguments[index]? with
      | none => rfl
      | some type => exact substitute_of _ _ type
  | .generic definition arguments =>
      congrArg (generic definition) (substituteAll_substituteAll arguments)

theorem substituteAll_substituteAll : ∀ types : List TypeRef,
    substituteAll [] methodArguments (substituteAll typeArguments [] types)
      = substituteAll typeArguments methodArguments types
  | [] => rfl
  | head :: tail =>
      congrArg₂ List.cons (substitute_substitute head) (substituteAll_substituteAll tail)

end
end

end TypeRef

/-! ## Answers of lookups -/

namespace Lookup

variable {α β : Type} {action : Lookup α} {next : α -> Lookup β}

/-- An answer that does not depend on closed types may be asked for in the catalog
before. -/
theorem answer_bind (catalog : Catalog) (first : Regular action)
    (second : ∀ answer, Regular (next answer)) :
    (catalog.lookup (action >>= next)).1
      = (catalog.lookup action).1 >>= fun answer => (catalog.lookup (next answer)).1 := by
  have same := (first.closes catalog).grows.toSameRegistered
  rw [lookup_bind]
  rcases outcome : catalog.lookup action with ⟨answer, later⟩
  rw [outcome] at same
  cases answer with
  | none => rfl
  | some answer => exact (second answer).stable catalog later same

end Lookup

open Lookup

namespace Catalog

variable {catalog : Catalog}

theorem answer_cons (first : head.Regular) (rest : tail.Regular) :
    (catalog.lookup (do
      let type ← head
      let types ← tail
      return type :: types)).1
      = (catalog.lookup head).1 >>= fun type => (catalog.lookup tail).1.map (type :: ·) := by
  rw [answer_bind catalog first fun _ => rest.bind fun _ => .pure _]
  refine congrArg ((catalog.lookup head).1 >>= ·) (funext fun type => ?_)
  rw [answer_bind catalog rest fun _ => .pure _]
  cases (catalog.lookup tail).1 <;> rfl

theorem closeGeneric_some {definition hash : TypeHash}
    (closes : (catalog.lookup (closeGeneric definition arguments)).1 = some hash) :
    hash = .ofInstance definition arguments := by
  rw [lookup_closeGeneric] at closes
  split at closes
  · cases closes
  · split at closes <;> cases closes
    rfl

mutual

theorem closedHash_of_materialize : ∀ (type : TypeRef) {hash : TypeHash},
    (catalog.lookup (materialize type)).1 = some hash -> type.closedHash = some hash
  | .void, _, made | .concrete _, _, made => by
      rw [materialize] at made
      exact made
  | .typeParameter _, _, made | .methodParameter _, _, made => by
      rw [materialize] at made
      cases made
  | .generic definition arguments, hash, made => by
      rw [materialize, answer_bind catalog (regular_materializeAll _)
        fun _ => regular_closeGeneric _ _] at made
      obtain ⟨_, areMade, closes⟩ := Option.bind_eq_some_iff.mp made
      rw [TypeRef.closedHash, closedHashes_of_materializeAll arguments areMade,
        closeGeneric_some closes, Option.map_some]

theorem closedHashes_of_materializeAll : ∀ (types : List TypeRef) {hashes : List TypeHash},
    (catalog.lookup (materializeAll types)).1 = some hashes ->
      TypeRef.closedHashes types = some hashes
  | [], _, made => by
      rw [materializeAll] at made
      exact made
  | head :: tail, hashes, made => by
      rw [materializeAll, answer_cons (regular_materialize _) (regular_materializeAll _)] at made
      obtain ⟨_, isHead, made⟩ := Option.bind_eq_some_iff.mp made
      obtain ⟨others, isTail, rfl⟩ := Option.map_eq_some_iff.mp made
      rw [TypeRef.closedHashes, closedHash_of_materialize head isHead,
        closedHashes_of_materializeAll tail isTail]

end

end Catalog

/-! ## Descriptors as references -/

namespace Descriptor

mutual

/-- The reference of the same shape.  Nothing is known of a parameter but that it
is one. -/
def typeRef : Descriptor -> TypeRef
  | .void => .void
  | .named name arguments =>
      if arguments.isEmpty then .named name else .applied name (typeRefs arguments)
  | .array element rank => .generic (.arrayDefinition rank.toNat) [element.typeRef]
  | .parameter _ => .typeParameter 0

def typeRefs : List Descriptor -> List TypeRef
  | [] => []
  | head :: tail => head.typeRef :: typeRefs tail

end

variable (descriptors : List Descriptor)

theorem typeRefs_eq_map : typeRefs descriptors = descriptors.map typeRef := by
  induction descriptors with
  | nil => rfl
  | cons head tail ih => exact congrArg (head.typeRef :: ·) ih

theorem length_typeRefs : (typeRefs descriptors).length = descriptors.length := by
  rw [typeRefs_eq_map, List.length_map]

end Descriptor

open Descriptor

namespace Catalog

variable {catalog : Catalog} {definitions : List TypeDefinition}

mutual

/-- What a descriptor denotes is made for the reference of its shape. -/
theorem materialize_of_denoted (holds : catalog.Holds definitions) :
    ∀ (descriptor : Descriptor) {hash : TypeHash}, catalog.denoted? descriptor = some hash ->
      (catalog.lookup (materialize descriptor.typeRef)).1 = some hash
  | .void, _, denotes => by
      rw [denoted?, resolve] at denotes
      rw [typeRef, materialize]
      exact denotes
  | .parameter _, _, denotes => by
      rw [denoted?, resolve] at denotes
      cases denotes
  | .named name arguments, hash, denotes => by
      rw [denoted?, resolve, lookup_get_bind, byName?] at denotes
      split at denotes
      · cases denotes
      · rename_i type isNamed
        cases holds.names _ _ isNamed
        rw [typeRef]
        split at denotes
        · rename_i isEmpty
          cases List.isEmpty_iff.mp isEmpty
          cases denotes
          rw [if_pos isEmpty, TypeRef.named]
          split
          · rename_i isVoid
            rw [materialize, isVoid]
            rfl
          · rw [materialize]
            rfl
        · rename_i notEmpty
          rw [answer_bind catalog (regular_resolveAll _) fun _ => regular_closeGeneric _ _]
            at denotes
          obtain ⟨_, areDenoted, closes⟩ := Option.bind_eq_some_iff.mp denotes
          rw [if_neg notEmpty, TypeRef.applied, length_typeRefs, materialize,
            answer_bind catalog (regular_materializeAll _) fun _ => regular_closeGeneric _ _,
            materializeAll_of_resolveAll holds arguments areDenoted]
          exact closes
  | .array element rank, hash, denotes => by
      rw [denoted?, resolve, answer_bind catalog (regular_resolve _)
        fun _ => regular_closeArray _ _] at denotes
      obtain ⟨_, isElement, closes⟩ := Option.bind_eq_some_iff.mp denotes
      rw [closeArray, lookup_get_bind, byName?] at closes
      split at closes
      · rename_i definition isNamed
        cases holds.names _ _ isNamed
        rw [typeRef, materialize, answer_bind catalog (regular_materializeAll _)
            fun _ => regular_closeGeneric _ _, materializeAll, answer_cons (regular_materialize _) (regular_materializeAll _),
          materialize_of_denoted holds element isElement, materializeAll]
        exact closes
      · cases closes

theorem materializeAll_of_resolveAll (holds : catalog.Holds definitions) :
    ∀ (descriptors : List Descriptor) {hashes : List TypeHash},
      (catalog.lookup (resolveAll descriptors)).1 = some hashes ->
        (catalog.lookup (materializeAll (typeRefs descriptors))).1 = some hashes
  | [], _, denotes => by
      rw [resolveAll] at denotes
      rw [typeRefs, materializeAll]
      exact denotes
  | head :: tail, hashes, denotes => by
      rw [resolveAll, answer_cons (regular_resolve _) (regular_resolveAll _)] at denotes
      obtain ⟨_, isHead, denotes⟩ := Option.bind_eq_some_iff.mp denotes
      obtain ⟨others, isTail, rfl⟩ := Option.map_eq_some_iff.mp denotes
      rw [typeRefs, materializeAll, answer_cons (regular_materialize _) (regular_materializeAll _), materialize_of_denoted holds head isHead,
        materializeAll_of_resolveAll holds tail isTail]
      rfl

end

end Catalog

/-! ## Arrays -/

namespace Execute

private theorem length_mapM_ok {α β ε : Type} {convert : α -> Except ε β} {items : List α}
    {results : List β} (maps : items.mapM convert = .ok results) :
    results.length = items.length := by
  induction items generalizing results with
  | nil =>
    cases maps
    rfl
  | cons head tail ih =>
    rw [List.mapM_cons] at maps
    obtain ⟨_, _, maps⟩ := Catalog.ok_of_bind maps
    obtain ⟨rest, isRest, maps⟩ := Catalog.ok_of_bind maps
    cases maps
    exact congrArg (· + 1) (ih isRest)

variable {before after : Running} {indices : List Int}

theorem length_popIndices (pops : popIndices rank before = .ok indices after) :
    indices.length = rank.toNat := by
  obtain ⟨values, _, popped, pops⟩ := ok_of_bind pops
  obtain ⟨numbers, last, converts, given⟩ := ok_of_bind pops
  cases given
  have many : values.length = rank.toNat := by
    change (if rank.toNat ≤ before.frame.operands.length then _ else _ : Execute (List Value)) before
      = _ at popped
    split at popped <;> cases popped
    rw [List.length_reverse, List.length_take, Nat.min_eq_left (by assumption)]
  rw [List.length_map, ← many]
  cases maps : values.mapM Conversion.readInt64 with rw [maps] at converts
  | error error => cases converts
  | ok results =>
    cases converts
    exact length_mapM_ok maps

theorem length_dimensions (runs : dimensions indices before = .ok sizes after) :
    sizes.length = indices.length := by
  induction indices generalizing sizes after with
  | nil =>
    cases runs
    rfl
  | cons index rest ih =>
    unfold dimensions at runs
    split at runs
    · cases runs
    · obtain ⟨_, _, isRest, given⟩ := ok_of_bind runs
      cases given
      exact congrArg (· + 1) (ih isRest)

variable {element : TypeHash}

/-- The instruction that makes an array gives it the rank and the element type
that it reads. -/
theorem newArray_ok {read ready : Running} (readsHash : readHash before = .ok element read)
    (readsRank : readByte read = .ok rank ready)
    (executes : newArray before = .ok continuation after) :
    ∃ ref rest, after.frame.operands = .array ref :: rest ∧ after.heap.runtimeType (.array ref)
        = some (.ofInstance (.arrayDefinition rank.toNat) [element]) := by
  unfold newArray at executes
  rw [bind_of_ok readsHash, bind_of_ok readsRank] at executes
  obtain ⟨_, _, pops, executes⟩ := ok_of_bind executes
  obtain ⟨sizes, sized, isSizes, executes⟩ := ok_of_bind executes
  obtain ⟨heap, _, _, executes⟩ := ok_of_bind executes
  obtain ⟨⟨ref, later⟩, checked, creates, executes⟩ := ok_of_bind executes
  cases executes
  refine ⟨ref, _, rfl, ?_⟩
  cases made : heap.newArray element sizes (Catalog.defaultValue element) with rw [made] at creates
  | error error => cases creates
  | ok pair =>
    cases creates
    obtain ⟨_, _, made⟩ := Catalog.ok_of_bind made
    cases made
    change some (ArrayCell.type (Array.getD (Array.push _ _) _ _)) = _
    rw [Array.getD_eq_getD_getElem?, Array.getElem?_push_size, Option.getD_some, ArrayCell.type,
      ArrayCell.rank, (length_dimensions isSizes).trans (length_popIndices pops),
      Nat.min_eq_left (Nat.le_of_lt_succ rank.toNat_lt)]

end Execute

theorem Compile.arrayType_ok (runs : arrayType info before = .ok (element, rank) after) :
    ∃ inner, ∃ dimensions : UInt8, ∃ hash,
      info.type = some (.array inner dimensions) ∧ rank = dimensions.toNat
        ∧ before.workspace.catalog.denoted? inner = some element
        ∧ before.workspace.catalog.denoted? (.array inner dimensions) = some hash := by
  unfold arrayType at runs
  cases typed : info.type with rw [typed] at runs
  | none => cases runs
  | some descriptor =>
    cases descriptor with
    | array inner dimensions =>
      obtain ⟨_, _, resolved, closes⟩ := ok_of_bind runs
      obtain ⟨closed, last, made, given⟩ := ok_of_bind closes
      obtain ⟨denotes, grows⟩ := resolve_ok resolved
      cases closed with
      | none => cases given
      | some hash =>
        cases given
        refine ⟨inner, dimensions, hash, rfl, rfl, denotes, ?_⟩
        obtain ⟨workspace, looked, rfl⟩ := make_ok made
        injection looked with answers
        rw [Catalog.denoted?, Catalog.resolve, Lookup.answer_bind _ (Catalog.regular_resolve _)
          fun _ => Catalog.regular_closeArray _ _]
        rw [show (before.workspace.catalog.lookup (Catalog.resolve inner)).1 = some element from denotes]
        exact ((Catalog.regular_closeArray _ _).stable _ _ grows.toSameRegistered).symm.trans answers
    | _ => cases runs

/-- The views of a type agree on its identity, in a catalog of definitions with
any types closed.  A descriptor denotes what the reference of its shape is closed
and materialized to.  A reference has a closed hash exactly if it mentions no
parameter, it is materialized to nothing else, and arguments may be substituted
one list after the other.  An array creation is compiled for the element and the
rank of its descriptor, and the array that is made for them has the type that the
descriptor denotes. -/
theorem Catalog.views_agree {definitions : List TypeDefinition} {built catalog : Catalog}
    (isBuilt : build definitions = .ok built) (asked : built.Asked catalog) :
    (∀ descriptor hash, catalog.denoted? descriptor = some hash ->
        descriptor.typeRef.closedHash = some hash ∧ descriptor.typeRef.signatureHash = hash
          ∧ (catalog.lookup (materialize descriptor.typeRef)).1 = some hash)
      ∧ (∀ type : TypeRef, (type.closedHash.isSome = true ↔ type.isOpen = false)
        ∧ (∀ hash, (catalog.lookup (materialize type)).1 = some hash ->
          type.closedHash = some hash)
        ∧ ∀ typeArguments methodArguments,
          (type.substitute typeArguments []).substitute [] methodArguments
            = type.substitute typeArguments methodArguments)
      ∧ (∀ info body later element rank, body.workspace.catalog = catalog ->
        Compile.arrayType info body = .ok (element, rank) later ->
          ∃ inner, ∃ dimensions : UInt8, ∃ hash,
            info.type = some (.array inner dimensions) ∧ rank = dimensions.toNat
              ∧ catalog.denoted? inner = some element
              ∧ catalog.denoted? (.array inner dimensions) = some hash)
      ∧ ∀ inner element dimensions hash, catalog.denoted? inner = some element ->
        catalog.denoted? (.array inner dimensions) = some hash ->
        ∀ before read ready after continuation,
          Execute.readHash before = .ok element read ->
          Execute.readByte read = .ok dimensions ready ->
          Execute.newArray before = .ok continuation after ->
            ∃ ref rest, after.frame.operands = .array ref :: rest
              ∧ after.heap.runtimeType (.array ref) = some hash := by
  have same := asked.grows.toSameRegistered
  have closed (descriptor : Descriptor) (hash : TypeHash)
      (denotes : catalog.denoted? descriptor = some hash) :
      (catalog.lookup (materialize descriptor.typeRef)).1 = some hash := by
    rw [denoted?, (regular_resolve _).stable _ _ same] at denotes
    rw [(regular_materialize _).stable _ _ same]
    exact materialize_of_denoted (holds_build isBuilt) descriptor denotes
  refine ⟨fun descriptor hash denotes => ?_, fun type => ⟨?_, fun hash =>
    closedHash_of_materialize type, fun typeArguments methodArguments =>
      type.substitute_substitute typeArguments methodArguments⟩, ?_, ?_⟩
  · have made := closed descriptor hash denotes
    have isClosed := closedHash_of_materialize _ made
    exact ⟨isClosed, TypeRef.signatureHash_of_closedHash _ isClosed, made⟩
  · rw [TypeRef.isSome_closedHash, Bool.not_eq_true']
  · rintro info body later element rank rfl succeeds
    exact Compile.arrayType_ok succeeds
  · intro inner element dimensions hash isElement denotes before read ready after continuation
      readsHash readsRank executes
    obtain ⟨ref, rest, operands, isType⟩ := Execute.newArray_ok readsHash readsRank executes
    refine ⟨ref, rest, operands, isType.trans ?_⟩
    have isClosed := closedHash_of_materialize _ (closed _ _ denotes)
    rw [Descriptor.typeRef, TypeRef.closedHash, TypeRef.closedHashes,
      closedHash_of_materialize _ (closed _ _ isElement)] at isClosed
    exact isClosed

namespace Catalog

theorem denoted?_int (isBuilt : build [] = .ok built) : built.denoted? .int = some .int := by
  have listed : "int" ∈ (SystemTypes.definitions ++ []).map TypeDefinition.key := by decide +kernel
  have known : built.byName? (genericKey "int" 0) = _ := byName?_of_build isBuilt listed
  rw [denoted?, Descriptor.int, Descriptor.simple, resolve, Lookup.lookup_get_bind,
    List.length_nil, known]
  rfl

theorem denoted?_array (isBuilt : build [] = .ok built) {element : Descriptor} (rank : UInt8)
    (isKey : (TypeDefinition.ofArray rank.toNat).key = TypeHash.arrayKey rank.toNat)
    (found : TypeDefinition.registered? (SystemTypes.definitions ++ [])
      (.arrayDefinition rank.toNat) = some (.ofArray rank.toNat)) {hash : TypeHash}
    (isElement : built.denoted? element = some hash) : built.denoted? (.array element rank)
      = some (.ofInstance (.arrayDefinition rank.toNat) [hash]) := by
  rw [denoted?] at isElement ⊢
  rw [resolve, Lookup.answer_bind built (regular_resolve _) fun _ => regular_closeArray _ _,
    isElement]
  exact congrArg Prod.fst (lookup_closeArray isBuilt isKey found hash)

/-- In the catalog of the system types, arrays of integers of two dimensions have
the hash of the reference to them. -/
theorem views_of_matrix_agree : ∃ catalog hash, build [] = .ok catalog
    ∧ catalog.denoted? (.array .int 2) = some hash
    ∧ (TypeRef.generic (.arrayDefinition 2) [.int]).closedHash = some hash := by
  obtain ⟨catalog, built⟩ := exists_build_nil
  have denotes := denoted?_array built 2 rfl rfl (denoted?_int built)
  exact ⟨catalog, _, built, denotes, ((views_agree built .nothing).1 _ _ denotes).1⟩

end Catalog
end OpMachine
