import Mathlib.Data.Fintype.EquivFin
import Mathlib.Logic.Relation
import OpMachine.Proofs.Registration

namespace OpMachine

/-!
# Chains of bases

Members are looked for along a chain of bases.  Registration asks only that a
base has a registered key, so a type may be its own base in the end, and then the
chain has none.  The chains of a catalog all end exactly if no definition derives
from itself, directly or through others; closed generic types change nothing
about this, since their chain goes on at the base of their definition.

A chain that ends visits every registered type at most once.  The bounded walk of
`Catalog.hierarchy` therefore gives the whole of it.
-/

namespace Catalog

/-! ## Chains -/

/-- The declaring types from a type upwards, to the one without a base. -/
inductive Chain (catalog : Catalog) : TypeHash -> List (HostType × List TypeHash) -> Prop
  | unknown {hash : TypeHash} (absent : catalog.declaring? hash = none) : Chain catalog hash []
  | root {hash : TypeHash} (declares : catalog.declaring? hash = some declared)
      (isRoot : declared.1.base = none) : Chain catalog hash [declared]
  | derived {hash base : TypeHash} (declares : catalog.declaring? hash = some declared)
      (isBase : declared.1.base = some base) (rest : Chain catalog base chain) :
      Chain catalog hash (declared :: chain)

/-- Following bases from a type comes to an end. -/
def Ends (catalog : Catalog) (hash : TypeHash) : Prop := Exists (catalog.Chain hash)

/-- One type is the base of another. -/
def Links (catalog : Catalog) (hash base : TypeHash) : Prop :=
  ∃ declared, catalog.declaring? hash = some declared ∧ declared.1.base = some base

namespace Chain

variable {catalog : Catalog} {hash base : TypeHash} {chain other : List (HostType × List TypeHash)}
  {declared : HostType × List TypeHash}

theorem unique (ends : catalog.Chain hash chain) (endsToo : catalog.Chain hash other) :
    chain = other := by
  induction ends generalizing other with
  | unknown absent =>
    cases endsToo with
    | unknown => rfl
    | root declares | derived declares => cases absent.symm.trans declares
  | root declares isRoot =>
    cases endsToo with
    | unknown absent => cases absent.symm.trans declares
    | root declaresToo =>
      cases declares.symm.trans declaresToo
      rfl
    | derived declaresToo isBase =>
      cases declares.symm.trans declaresToo
      cases isRoot.symm.trans isBase
  | derived declares isBase _ ih =>
    cases endsToo with
    | unknown absent => cases absent.symm.trans declares
    | root declaresToo isRoot =>
      cases declares.symm.trans declaresToo
      cases isRoot.symm.trans isBase
    | derived declaresToo isBaseToo restToo =>
      cases declares.symm.trans declaresToo
      cases isBase.symm.trans isBaseToo
      rw [ih restToo]

theorem exists_shorter (ends : catalog.Chain hash chain)
    (links : Relation.TransGen catalog.Links hash base) :
    ∃ rest, catalog.Chain base rest ∧ rest.length < chain.length := by
  have one {hash base : TypeHash} {chain : List (HostType × List TypeHash)}
      (ends : catalog.Chain hash chain) (links : catalog.Links hash base) :
      ∃ rest, catalog.Chain base rest ∧ rest.length < chain.length := by
    rcases links with ⟨declared, declares, isBase⟩
    cases ends with
    | unknown absent => cases absent.symm.trans declares
    | root declaresToo isRoot =>
      cases declares.symm.trans declaresToo
      cases isRoot.symm.trans isBase
    | derived declaresToo isBaseToo rest =>
      cases declares.symm.trans declaresToo
      cases isBase.symm.trans isBaseToo
      exact ⟨_, rest, Nat.lt_succ_self _⟩
  induction links with
  | single links => exact one ends links
  | tail _ links ih =>
    rcases ih with ⟨middle, isMiddle, shorter⟩
    rcases one isMiddle links with ⟨rest, isRest, shorterStill⟩
    exact ⟨rest, isRest, Nat.lt_trans shorterStill shorter⟩

theorem not_links_self (ends : catalog.Chain hash chain) :
    ¬ Relation.TransGen catalog.Links hash hash := by
  intro cycle
  rcases ends.exists_shorter cycle with ⟨rest, isRest, shorter⟩
  rw [ends.unique isRest] at shorter
  exact Nat.lt_irrefl _ shorter

def bases (chain : List (HostType × List TypeHash)) : List TypeHash :=
  chain.filterMap (·.1.base)

theorem bases_derived (isBase : declared.1.base = some base)
    (rest : List (HostType × List TypeHash)) : bases (declared :: rest) = base :: bases rest :=
  List.filterMap_cons_some isBase

theorem bases_root (isRoot : declared.1.base = none) : bases [declared] = [] := by
  rw [bases, List.filterMap_cons, isRoot]
  rfl

variable (ends : catalog.Chain hash chain)

include ends

theorem length_le : chain.length ≤ (bases chain).length + 1 := by
  induction ends with
  | unknown => exact Nat.zero_le _
  | root => exact Nat.succ_le_succ (Nat.zero_le _)
  | derived _ isBase _ ih =>
    rw [bases_derived isBase]
    exact Nat.succ_le_succ ih

theorem links_of_mem_bases (member : base ∈ bases chain) :
    Relation.TransGen catalog.Links hash base := by
  induction ends with
  | unknown => exact nomatch member
  | root _ isRoot =>
    rw [bases_root isRoot] at member
    exact nomatch member
  | derived declares isBase _ ih =>
    rw [bases_derived isBase] at member
    rcases List.mem_cons.mp member with rfl | later
    · exact .single ⟨_, declares, isBase⟩
    · exact .head ⟨_, declares, isBase⟩ (ih later)

theorem nodup_bases : (bases chain).Nodup := by
  induction ends with
  | unknown => exact List.nodup_nil
  | root _ isRoot =>
    rw [bases_root isRoot]
    exact List.nodup_nil
  | derived _ isBase rest ih =>
    rw [bases_derived isBase, List.nodup_cons]
    exact ⟨fun again => rest.not_links_self (rest.links_of_mem_bases again), ih⟩

theorem ancestry_eq (enough : chain.length ≤ allowed) : catalog.ancestry allowed hash = chain := by
  induction ends generalizing allowed with
  | unknown absent =>
    cases allowed with
    | zero => rfl
    | succ => rw [ancestry, absent]
  | root declares isRoot =>
    cases allowed with
    | zero => cases enough
    | succ => simp only [ancestry, declares, isRoot]
  | derived declares isBase _ ih =>
    cases allowed with
    | zero => cases enough
    | succ =>
      simp only [ancestry, declares, isBase]
      rw [ih (Nat.le_of_succ_le_succ enough)]

end Chain

/-! ## Catalogs whose bases are registered -/

/-- Every base is a registered type, and closed types have registered
definitions. -/
structure HasBases (catalog : Catalog) : Prop where
  hash : ∀ (hash : TypeHash) (type : HostType), catalog.types[hash]? = some type ->
    type.hash = hash
  types : ∀ (hash : TypeHash) (type : HostType), catalog.types[hash]? = some type ->
    type.definition = none ∧ ∀ base, type.base = some base -> base ∈ catalog.types
  instances : ∀ (hash : TypeHash) (type : HostType), catalog.instances[hash]? = some type ->
    ∃ definition, type.definition = some definition ∧ definition ∈ catalog.types

namespace HasBases

variable {catalog : Catalog} (hasBases : catalog.HasBases) {hash : TypeHash}
  {chain : List (HostType × List TypeHash)}

include hasBases

theorem declaring_registered (declares : catalog.declaring? hash = some declared) :
    ∃ definition : TypeHash, catalog.types[definition]? = some declared.1 := by
  unfold declaring? get? at declares
  cases registered : catalog.types[hash]? with
  | some type =>
    simp only [registered, (hasBases.types hash type registered).1] at declares
    cases declares
    exact ⟨hash, registered⟩
  | none =>
    simp only [registered] at declares
    cases closed : catalog.instances[hash]? with
    | none => simp only [closed] at declares; cases declares
    | some type =>
      rcases hasBases.instances hash type closed with ⟨definition, isDefinition, known⟩
      have isDeclaring := Std.HashMap.getElem?_eq_some_getElem known
      simp only [closed, isDefinition, isDeclaring, Option.map_some] at declares
      cases declares
      exact ⟨definition, isDeclaring⟩

theorem links_registered {base : TypeHash} (links : catalog.Links hash base) :
    base ∈ catalog.types := by
  rcases links with ⟨declared, declares, isBase⟩
  rcases hasBases.declaring_registered declares with ⟨definition, registered⟩
  exact (hasBases.types _ _ registered).2 base isBase

theorem declaring_of_registered (registered : catalog.types[hash]? = some type) :
    catalog.declaring? hash = some (type, []) := by
  simp only [declaring?, get?, registered, (hasBases.types hash type registered).1]

/-- A chain that ends is no longer than the bounded walk. -/
theorem hierarchy_eq (ends : catalog.Chain hash chain) : catalog.hierarchy hash = chain := by
  refine ends.ancestry_eq (Nat.le_trans ends.length_le (Nat.succ_le_succ ?_))
  rw [← Std.HashMap.length_keys]
  refine (List.Nodup.subperm ends.nodup_bases fun base member => ?_).length_le
  rw [Std.HashMap.mem_keys]
  rcases Relation.TransGen.tail'_iff.mp (ends.links_of_mem_bases member) with ⟨hash, _, links⟩
  exact hasBases.links_registered links

theorem root_of_chain (ends : catalog.Chain hash chain) :
    ∀ last, chain.getLast? = some last -> last.1.base = none := by
  induction ends with
  | unknown => exact fun _ isLast => (nomatch isLast)
  | root _ isRoot =>
    intro last isLast
    cases isLast
    exact isRoot
  | derived declares isBase rest ih =>
    intro last isLast
    cases rest with
    | unknown absent =>
      have known := hasBases.links_registered ⟨_, declares, isBase⟩
      have registered := Std.HashMap.getElem?_eq_some_getElem known
      cases absent.symm.trans (hasBases.declaring_of_registered registered)
    | root | derived =>
      exact ih last isLast

end HasBases

/-! ## Registered definitions -/

end Catalog

variable {hash : TypeHash}

namespace TypeDefinition

variable (definitions : List TypeDefinition)

/-- The definition that a hash denotes: the last one that has it. -/
def registered? (hash : TypeHash) : Option TypeDefinition :=
  definitions.reverse.find? (·.hash = hash)

def asType (definition : TypeDefinition) : HostType :=
  Catalog.hostType definition (definition.base.map TypeHash.ofName)

/-- The definition of one hash derives from the key of another. -/
def Derives (first second : TypeHash) : Prop :=
  ∃ definition base, registered? definitions first = some definition
    ∧ definition.base = some base ∧ second = .ofName base

-- Stated for any key, so that no hash is ever computed when the proof is checked.
variable {α β : Type} {definitions : List TypeDefinition} {definition : TypeDefinition}

private theorem find?_reverse_concat [DecidableEq β] (key : α -> β) (items : List α)
    (item : α) (wanted : β) :
    (items ++ [item]).reverse.find? (fun each => decide (key each = wanted))
      = if key item = wanted then some item
        else items.reverse.find? fun each => decide (key each = wanted) := by
  rw [List.reverse_append, List.reverse_singleton, List.singleton_append, List.find?_cons]
  by_cases same : key item = wanted
  · rw [decide_eq_true same, if_pos same]
  · rw [decide_eq_false same, if_neg same]

theorem registered?_concat (definitions : List TypeDefinition) (definition : TypeDefinition)
    (hash : TypeHash) :
    registered? (definitions ++ [definition]) hash
      = if definition.hash = hash then some definition else registered? definitions hash :=
  find?_reverse_concat TypeDefinition.hash definitions definition hash

theorem mem_of_registered?
    (found : registered? definitions hash = some definition) : definition ∈ definitions :=
  List.mem_reverse.mp (List.mem_of_find?_eq_some found)

theorem hash_of_registered?
    (found : registered? definitions hash = some definition) : definition.hash = hash := by
  simpa [registered?] using List.find?_some found

end TypeDefinition

open TypeDefinition

namespace Catalog

/-- A catalog holds the types of definitions under names and hashes. -/
structure Holds (catalog : Catalog) (definitions : List TypeDefinition) : Prop where
  names : ∀ (key : String) (hash : TypeHash), catalog.names[key]? = some hash ->
    hash = .ofName key
  types : ∀ hash : TypeHash, catalog.types[hash]? = (registered? definitions hash).map asType
  instances : ∀ hash : TypeHash, catalog.instances[hash]? = none
  closedMethods : ∀ hash : TypeHash, catalog.closedMethods[hash]? = none

variable {before after catalog : Catalog} {definition : TypeDefinition}
  {definitions : List TypeDefinition}

theorem holds_empty : Holds {} [] := by
  constructor <;> intros <;> simp_all [registered?]

theorem Holds.addName (holds : before.Holds definitions)
    (added : before.addName definition = .ok after) : after.Holds definitions := by
  unfold Catalog.addName at added
  split at added <;> cases added
  refine { holds with names := fun key hash found => ?_ }
  rcases inserted_or_found found with ⟨same, rfl⟩ | earlier
  · exact congrArg TypeHash.ofName same
  · exact holds.names key hash earlier

theorem Holds.register (holds : before.Holds definitions)
    (registered : before.register definition = .ok after) :
    after.Holds (definitions ++ [definition]) := by
  obtain ⟨base, middle, isBase, keeps, rfl, _⟩ := register_ok registered
  have sameBase : base = definition.base.map TypeHash.ofName := by
    unfold baseOf at isBase
    split at isBase
    · rename_i absent
      cases isBase
      rw [absent, Option.map_none]
    · rename_i key isKey
      split at isBase
      · rename_i hash found
        cases isBase
        rw [isKey, holds.names key hash found, Option.map_some]
      · cases isBase
  refine ⟨keeps.names ▸ holds.names, fun hash => ?_, keeps.instances ▸ holds.instances,
    keeps.closedMethods ▸ holds.closedMethods⟩
  rw [Std.HashMap.getElem?_insert, registered?_concat, sameBase, keeps.types]
  by_cases same : definition.hash = hash
  · rw [if_pos (beq_iff_eq.mpr same), if_pos same, Option.map_some, asType]
  · rw [if_neg fun equal => same (beq_iff_eq.mp equal), if_neg same, holds.types]

theorem holds_build (built : build definitions = .ok catalog) :
    catalog.Holds (SystemTypes.definitions ++ definitions) := by
  obtain ⟨_, names, members⟩ := ok_of_bind built
  have named := kept_foldlM (fun _ => (Holds · [])) (fun _ _ _ _ => Holds.addName) [] holds_empty
    names
  exact kept_foldlM (fun front => (Holds · front)) (fun _ _ _ _ => Holds.register) [] named members

/-- Every key of a definition is the name of its hash. -/
theorem byName?_of_build {key : String} (built : build definitions = .ok catalog)
    (listed : key ∈ (SystemTypes.definitions ++ definitions).map (·.key)) :
    catalog.byName? key = some (.ofName key) := by
  have contained := ((lists_build built).keys key).mpr listed
  rw [Std.HashMap.contains_eq_isSome_getElem?] at contained
  obtain ⟨hash, isHash⟩ := Option.isSome_iff_exists.mp contained
  rw [byName?, isHash, (holds_build built).names key hash isHash]

/-- The arrays of a rank that the system knows can be closed over any element. -/
theorem lookup_closeArray (built : build [] = .ok catalog) {rank : Nat}
    (isKey : (ofArray rank).key = TypeHash.arrayKey rank)
    (found : registered? (SystemTypes.definitions ++ []) (.arrayDefinition rank)
      = some (ofArray rank)) (element : TypeHash) :
    let hash := .ofInstance (.arrayDefinition rank) [element]
    catalog.lookup (closeArray element rank)
      = (some hash, catalog.withInstance (ofArray rank).asType hash [element]) := by
  have known := byName?_of_build built (List.mem_map_of_mem (mem_of_registered? found))
  have isType : _ = some _ :=
    ((holds_build built).types (.ofName (TypeHash.arrayKey rank))).trans (congrArg _ found)
  rw [isKey] at known
  rw [closeArray, Lookup.lookup_get_bind, known]
  simp only [lookup_closeGeneric, isType]
  rfl

theorem hasBases_build (built : build definitions = .ok catalog) : catalog.HasBases := by
  have holds := holds_build built
  have registrable := (build_ok_iff definitions).mp ⟨catalog, built⟩
  refine ⟨fun hash type found => ?_, fun hash type found => ?_, fun hash type found => ?_⟩
  · rw [holds.types, Option.map_eq_some_iff] at found
    obtain ⟨definition, isDefinition, rfl⟩ := found
    exact hash_of_registered? isDefinition
  · rw [holds.types, Option.map_eq_some_iff] at found
    obtain ⟨definition, isDefinition, rfl⟩ := found
    refine ⟨rfl, fun base isBase => ?_⟩
    obtain ⟨key, isKey, rfl⟩ := Option.map_eq_some_iff.mp (isBase : definition.base.map _ = _)
    obtain ⟨other, member, rfl⟩ := List.mem_map.mp
      (registrable.bases definition (mem_of_registered? isDefinition) key isKey)
    rw [Std.HashMap.mem_iff_isSome_getElem?, holds.types, Option.isSome_map]
    exact List.find?_isSome.mpr ⟨_, List.mem_reverse.mpr member, decide_eq_true rfl⟩
  · rw [holds.instances] at found
    cases found

/-! ## Closing types and methods -/

/-- Closed types are those of registered definitions. -/
theorem HasBases.asked {catalog later : Catalog} (hasBases : catalog.HasBases)
    (asked : catalog.Asked later) : later.HasBases := by
  induction asked with
  | nothing => exact hasBases
  | @closeGeneric _ _ definition _ ih =>
    rw [lookup_closeGeneric]
    split
    · exact ih
    · rename_i type registered
      split
      · dsimp only
        unfold withInstance
        split
        · exact ih
        · refine { ih with instances := fun hash closed found => ?_ }
          rcases inserted_or_found found with ⟨_, rfl⟩ | found
          · refine ⟨type.hash, rfl, ?_⟩
            rw [ih.hash definition type registered]
            exact Std.HashMap.mem_iff_isSome_getElem?.mpr (by rw [registered]; rfl)
          · exact ih.instances hash closed found
      · exact ih
  | @closeMethod _ _ _ _ ih =>
    rw [lookup_closeMethod]
    split
    · exact ih
    · split
      · exact ih
      · dsimp only
        split <;> exact { ih with }

/-! ## When chains end -/

instance : Finite TypeHash :=
  Finite.of_injective (fun hash => hash.word.toBitVec.toFin) fun first second same => by
    cases first
    cases second
    exact congrArg TypeHash.mk (UInt64.toBitVec_inj.mp (BitVec.toFin_inj.mp same))

/-- Chains end if no type derives from itself: there are finitely many hashes. -/
theorem ends_of_acyclic
    (acyclic : ∀ hash, ¬ Relation.TransGen catalog.Links hash hash) (hash : TypeHash) :
    catalog.Ends hash := by
  let Below (base hash : TypeHash) : Prop := Relation.TransGen catalog.Links hash base
  have irreflexive : Std.Irrefl Below := ⟨acyclic⟩
  induction hash using (Finite.wellFounded_of_trans_of_irrefl Below).induction with
  | _ hash ih =>
    cases declares : catalog.declaring? hash with
    | none => exact ⟨[], .unknown declares⟩
    | some declared =>
      cases isBase : declared.1.base with
      | none => exact ⟨[declared], .root declares isBase⟩
      | some base =>
        obtain ⟨chain, isChain⟩ := ih base (.single ⟨_, declares, isBase⟩)
        exact ⟨declared :: chain, .derived declares isBase isChain⟩

/-- Where following bases does not end, the walk takes every step it is allowed. -/
theorem length_ancestry_of_not_ends
    (endless : ¬ catalog.Ends hash) (allowed : Nat) :
    (catalog.ancestry allowed hash).length = allowed := by
  induction allowed generalizing hash with
  | zero => rfl
  | succ _ ih =>
    cases declares : catalog.declaring? hash with
    | none => exact absurd ⟨[], .unknown declares⟩ endless
    | some declared =>
      cases isBase : declared.1.base with
      | none => exact absurd ⟨[declared], .root declares isBase⟩ endless
      | some base =>
        have endlessBase : ¬ catalog.Ends base := fun ⟨chain, isChain⟩ =>
          endless ⟨declared :: chain, .derived declares isBase isChain⟩
        simp only [ancestry, declares, isBase, List.length_cons, ih endlessBase]

section

variable {catalog : Catalog} {definitions : List TypeDefinition} (hasBases : catalog.HasBases)
  (types : ∀ hash : TypeHash, catalog.types[hash]? = (registered? definitions hash).map asType)
  {first second : TypeHash}

include hasBases types

theorem links_iff_derives {base : TypeHash} (known : hash ∈ catalog.types) :
    catalog.Links hash base ↔ TypeDefinition.Derives definitions hash base := by
  have registered := Std.HashMap.getElem?_eq_some_getElem known
  have declares := hasBases.declaring_of_registered registered
  rw [types, Option.map_eq_some_iff] at registered
  obtain ⟨definition, isDefinition, isType⟩ := registered
  rw [← isType] at declares
  constructor
  · rintro ⟨_, declaresToo, isBase⟩
    cases declares.symm.trans declaresToo
    obtain ⟨key, isKey, rfl⟩ := Option.map_eq_some_iff.mp (isBase : definition.base.map _ = _)
    exact ⟨definition, key, isDefinition, isKey, rfl⟩
  · rintro ⟨_, _, isOther, isKey, rfl⟩
    cases isDefinition.symm.trans isOther
    exact ⟨_, declares, (congrArg (Option.map TypeHash.ofName) isKey).trans (Option.map_some ..)⟩

theorem derives_of_links (known : first ∈ catalog.types)
    (links : Relation.TransGen catalog.Links first second) :
    Relation.TransGen (TypeDefinition.Derives definitions) first second := by
  induction links with
  | single links => exact .single ((links_iff_derives hasBases types known).mp links)
  | tail earlier links ih =>
    obtain ⟨_, _, last⟩ := Relation.TransGen.tail'_iff.mp earlier
    exact ih.tail ((links_iff_derives hasBases types (hasBases.links_registered last)).mp links)

theorem links_of_derives
    (derives : Relation.TransGen (TypeDefinition.Derives definitions) first second) :
    Relation.TransGen catalog.Links first second := by
  refine Relation.TransGen.mono (fun first second derives => ?_) _ _ derives
  refine (links_iff_derives hasBases types ?_).mpr derives
  obtain ⟨_, _, isDefinition, _⟩ := derives
  rw [Std.HashMap.mem_iff_isSome_getElem?, types, isDefinition, Option.map_some, Option.isSome_some]

theorem ends_iff_acyclic : (∀ hash, catalog.Ends hash)
      ↔ ∀ hash, ¬ Relation.TransGen (TypeDefinition.Derives definitions) hash hash := by
  constructor
  · intro ends hash cycle
    obtain ⟨_, isChain⟩ := ends hash
    exact isChain.not_links_self (links_of_derives hasBases types cycle)
  · refine fun acyclic hash => ends_of_acyclic (fun hash cycle => ?_) hash
    -- The last link of a cycle leads to its first type, which is therefore registered.
    obtain ⟨_, _, last⟩ := Relation.TransGen.tail'_iff.mp cycle
    exact acyclic hash (derives_of_links hasBases types (hasBases.links_registered last) cycle)

end

/-- In a catalog of definitions, whatever types and methods have been closed, all
chains of bases end exactly if no definition derives from itself, directly or
through others.  A chain that ends is walked to its end, a type without a base,
and on any other the walk goes on as long as it is allowed to. -/
theorem chains_end_iff {definitions : List TypeDefinition} {catalog later : Catalog}
    (built : build definitions = .ok catalog) (asked : catalog.Asked later) :
    ((∀ hash, later.Ends hash)
        ↔ ∀ hash, ¬ Relation.TransGen
          (TypeDefinition.Derives (SystemTypes.definitions ++ definitions)) hash hash)
      ∧ (∀ hash chain, later.Chain hash chain -> later.hierarchy hash = chain
        ∧ ∀ last, chain.getLast? = some last -> last.1.base = none)
      ∧ ∀ hash, ¬ later.Ends hash ->
        ∀ allowed, (later.ancestry allowed hash).length = allowed := by
  have hasBases := (hasBases_build built).asked asked
  have types := (holds_build built).types
  rw [← asked.grows.types] at types
  exact ⟨ends_iff_acyclic hasBases types,
    fun hash chain isChain => ⟨hasBases.hierarchy_eq isChain, hasBases.root_of_chain isChain⟩,
    fun hash endless => length_ancestry_of_not_ends endless⟩

/-- The types of every catalog derive from nothing. -/
theorem base_of_system {definition : TypeDefinition}
    (member : definition ∈ SystemTypes.definitions) : definition.base = none := by
  have none : SystemTypes.definitions.filterMap TypeDefinition.base = [] := by decide +kernel
  exact List.filterMap_eq_nil_iff.mp none definition member

/-- A class that is its own base is registered and its chain does not end; with a
class and a class derived from it all chains end. -/
theorem self_derived_endless :
    (∃ catalog, build [{ name := "A", base := some "A" }] = .ok catalog
        ∧ ∃ hash, ¬ catalog.Ends hash)
      ∧ ∃ catalog,
        build [{ name := "Dog", base := some "Animal" }, { name := "Animal" }] = .ok catalog
          ∧ ∀ hash, catalog.Ends hash := by
  constructor
  · obtain ⟨catalog, built⟩ : ∃ catalog,
        build [{ name := "A", base := some "A" }] = .ok catalog := by
      refine (build_ok_iff _).mpr (TypeDefinition.registrable_of_apart ?_ ?_ ?_ ?_ ?_ ?_)
        <;> decide +kernel
    refine ⟨catalog, built, Classical.not_forall.mp fun ends => ?_⟩
    refine (chains_end_iff built .nothing).1.mp ends (.ofName "A") (.single ?_)
    refine ⟨{ name := "A", base := some "A" }, "A", ?_, rfl, rfl⟩
    rw [TypeDefinition.registered?_concat, TypeDefinition.hash]
    exact if_pos (congrArg TypeHash.ofName (by decide))
  · obtain ⟨catalog, built⟩ : ∃ catalog,
        build [{ name := "Dog", base := some "Animal" }, { name := "Animal" }] = .ok catalog := by
      refine (build_ok_iff _).mpr (TypeDefinition.registrable_of_apart ?_ ?_ ?_ ?_ ?_ ?_)
        <;> decide +kernel
    refine ⟨catalog, built, (chains_end_iff built .nothing).1.mpr fun hash cycle => ?_⟩
    have ofDog {first second : TypeHash} (derives : TypeDefinition.Derives (SystemTypes.definitions
        ++ [{ name := "Dog", base := some "Animal" }, { name := "Animal" }]) first second) :
        first = .ofName "Dog" ∧ second = .ofName "Animal" := by
      obtain ⟨definition, _, isDefinition, isBase, rfl⟩ := derives
      have isHash := TypeDefinition.hash_of_registered? isDefinition
      rcases List.mem_append.mp (TypeDefinition.mem_of_registered? isDefinition) with system | own
      · cases (base_of_system system).symm.trans isBase
      · simp only [List.mem_cons, List.not_mem_nil, or_false] at own
        rcases own with rfl | rfl
        · cases isBase
          exact ⟨isHash.symm.trans (congrArg TypeHash.ofName (by decide)), rfl⟩
        · cases isBase
    obtain ⟨_, first, _⟩ := Relation.TransGen.head'_iff.mp cycle
    obtain ⟨_, _, last⟩ := Relation.TransGen.tail'_iff.mp cycle
    exact absurd ((ofDog first).1.symm.trans (ofDog last).2) (by decide +kernel)

end Catalog
end OpMachine
