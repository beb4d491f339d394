import OpMachine.Proofs.BaseChains

namespace OpMachine

/-!
# The choice between overloads

A parameter takes a requested type in one of three ways: as that type itself, as
an open generic type of the same definition, or as a generic parameter that takes
anything.  The distance of a candidate is computed from these ranks alone.  Each
of them leaves a cost that grows with the cost before, and a less exact one leaves
a greater cost, so no order of the positions lets a candidate win against one that
is at least as exact everywhere and more exact somewhere.

The costs double, and they are cut off at a ceiling, which also stands for a
candidate that does not match.  Thirty-one positions stay below it.
-/

namespace Overload

/-! ## Ranks -/

/-- How a parameter takes a requested type, the most exact way first. -/
inductive Rank where
  | exact
  | shape
  | bare
deriving DecidableEq

namespace Rank

def inexactness : Rank -> Nat
  | exact => 0
  | shape => 1
  | bare => 2

instance : LE Rank := ⟨fun first second => first.inexactness ≤ second.inexactness⟩

instance : LT Rank := ⟨fun first second => first.inexactness < second.inexactness⟩

def cost : Rank -> Nat -> Nat
  | exact, total => total
  | shape, total => total + 1
  | bare, total => (total + 1) * 2

def costs (total : Nat) (ranks : List Rank) : Nat :=
  ranks.foldl (fun total rank => rank.cost total) total

theorem cost_lt_cost {first second : Rank} (exacter : first ≤ second) (cheaper : less ≤ more) :
    first.cost less ≤ second.cost more
      ∧ (first < second ∨ less < more -> first.cost less < second.cost more) := by
  change first.inexactness ≤ second.inexactness at exacter
  change _ ∧ (first.inexactness < second.inexactness ∨ less < more -> _)
  cases first <;> cases second <;> simp only [inexactness, cost] at exacter ⊢ <;> omega

theorem costs_lt_costs (exacter : List.Forall₂ (· ≤ ·) first second) {less more : Nat}
    (cheaper : less ≤ more)
    (strictly : (∃ ranks, ranks ∈ first.zip second ∧ ranks.1 < ranks.2) ∨ less < more) :
    costs less first < costs more second := by
  induction exacter generalizing less more with
  | nil => exact strictly.elim (fun ⟨_, member, _⟩ => nomatch member) id
  | cons here _ ih =>
    obtain ⟨le, lt⟩ := cost_lt_cost here cheaper
    refine ih le ?_
    rcases strictly with ⟨ranks, member, strict⟩ | strict
    · rcases List.mem_cons.mp member with rfl | later
      · exact .inr (lt (.inl strict))
      · exact .inl ⟨ranks, later, strict⟩
    · exact .inr (lt (.inr strict))

/-- At most the cost doubles at every position. -/
theorem costs_le (total : Nat) (ranks : List Rank) :
    costs total ranks + 2 ≤ (total + 2) <<< ranks.length := by
  induction ranks generalizing total with
  | nil => exact .refl
  | cons rank rest ih =>
    refine Nat.le_trans (ih (rank.cost total)) ?_
    rw [List.length_cons, Nat.shiftLeft_succ_inside, Nat.shiftLeft_eq, Nat.shiftLeft_eq]
    refine Nat.mul_le_mul_right _ ?_
    cases rank <;> simp only [cost] <;> omega

theorem costs_replicate_bare (total count : Nat) :
    costs total (List.replicate count bare) + 2 = (total + 2) <<< count := by
  induction count generalizing total with
  | zero => rfl
  | succ count ih =>
    exact (ih _).trans (congrArg (· <<< count) (by simp only [cost]; omega))

end Rank

def rank? (catalog : Catalog) (requested : TypeHash) (parameter : TypeRef) : Option Rank :=
  if parameter.closedHash = some requested then some .exact
  else if parameter.isBare then some .bare
  else
    match parameter with
    | .generic definition _ =>
      if parameter.isOpen && catalog.peel? requested = some definition then some .shape else none
    | _ => none

/-- The ranks of all positions, if there are as many parameters as requested types
and each takes its own. -/
def ranks? (catalog : Catalog) : List TypeHash -> List TypeRef -> Option (List Rank)
  | requested :: rest, parameter :: parameters =>
    match rank? catalog requested parameter, ranks? catalog rest parameters with
    | some rank, some ranks => some (rank :: ranks)
    | _, _ => none
  | [], [] => some []
  | _, _ => none

theorem length_of_ranks? (isRanks : ranks? catalog requested parameters = some ranks) :
    ranks.length = requested.length := by
  fun_induction ranks? generalizing ranks with
  | case1 _ _ _ _ _ _ _ _ ih =>
    cases isRanks
    exact congrArg (· + 1) (ih ‹_›)
  | case3 =>
    cases isRanks
    rfl
  | case2 | case4 => cases isRanks

theorem ranks?_of_isBare (catalog : Catalog) (sameLength : requested.length = parameters.length)
    (bare : ∀ parameter, parameter ∈ parameters -> parameter.isBare = true) :
    ranks? catalog requested parameters = some (List.replicate requested.length .bare) := by
  induction requested generalizing parameters with
  | nil => cases List.length_eq_zero_iff.mp sameLength.symm; rfl
  | cons head _ ih =>
    cases parameters with
    | nil => cases sameLength
    | cons parameter rest =>
      obtain ⟨isBare, others⟩ := List.forall_mem_cons.mp bare
      have isRank : rank? catalog head parameter = some .bare := by
        cases parameter <;> first | rfl | cases isBare
      rw [ranks?, ih (Nat.succ.inj sameLength) others, isRank]
      rfl

/-- One candidate is at least as exact as another in every position, and more
exact in some position. -/
def Dominates (catalog : Catalog) (requested : List TypeHash) (first second : List TypeRef) :
    Prop :=
  ∃ better worse, ranks? catalog requested first = some better
    ∧ ranks? catalog requested second = some worse ∧ List.Forall₂ (· ≤ ·) better worse
    ∧ ∃ ranks, ranks ∈ better.zip worse ∧ ranks.1 < ranks.2

end Overload

namespace Catalog.HasBases

variable {catalog : Catalog} (hasBases : catalog.HasBases) {type definition : TypeHash}
  (peels : catalog.peel? type = some definition)

include hasBases peels

theorem mem_of_peel? : definition ∈ catalog.types := by
  obtain ⟨host, found, isDefinition⟩ := Option.bind_eq_some_iff.mp peels
  unfold get? at found
  split at found
  · rename_i registered
    cases found
    cases (hasBases.types type host registered).1.symm.trans isDefinition
  · obtain ⟨_, isOther, member⟩ := hasBases.instances type host found
    cases isOther.symm.trans isDefinition
    exact member

/-- A definition is no closed type, so nothing can be peeled twice. -/
theorem peel?_definition : catalog.peel? definition = none := by
  have registered := Std.HashMap.getElem?_eq_some_getElem (hasBases.mem_of_peel? peels)
  simp only [peel?, get?, registered]
  exact (hasBases.types definition _ registered).1

end Catalog.HasBases

namespace Overload

/-! ## Costs of candidates -/

section

variable {catalog : Catalog} (hasBases : catalog.HasBases)

include hasBases

/-- However often the loop may peel, it meets after one step or never: the definition
of the requested type is registered, and there is nothing to peel from it. -/
theorem peeled_succ (steps : Nat) (requested : TypeHash) (parameter : TypeRef) (total : Nat) :
    peeled catalog (steps + 1) requested parameter total
      = peeled catalog 1 requested parameter total := by
  rw [peeled, peeled]
  cases peels : catalog.peel? requested with
  | none => rfl
  | some definition =>
    have ends (parameter : TypeRef) (total : Nat) :
        peeled catalog steps definition parameter total = none := by
      cases steps with
      | zero => rfl
      | succ => rw [peeled, hasBases.peel?_definition peels]
    cases peelRef? catalog parameter with
    | none => rfl
    | some => simp only [ends, peeled]

/-- The cost after a position is that of its rank.  Only an exact match leaves it
as it is, every other one is cut off at the ceiling. -/
theorem position_eq (requested : TypeHash) (parameter : TypeRef) (total : Nat) :
    position catalog requested parameter total = (rank? catalog requested parameter).map fun rank =>
        if rank = .exact then total else saturate (rank.cost total) := by
  unfold position rank?
  rw [peeled_succ hasBases]
  split
  · rfl
  · split
    · refine congrArg some ?_
      simp only [saturate, Rank.cost, reduceCtorEq, if_false]
      omega
    · rename_i different notBare
      cases parameter with
      | void | concrete => rfl
      | typeParameter | methodParameter => exact absurd rfl notBare
      | generic definition arguments =>
        cases isOpen : (TypeRef.generic definition arguments).isOpen with
        | false => rfl
        | true =>
          cases peels : catalog.peel? requested with
          | none => simp [Catalog.isClosedGeneric, peels]
          | some other =>
            simp only [Catalog.isClosedGeneric, peels, Option.isSome_some, Bool.not_true,
              Bool.or_self, Bool.false_eq_true, if_false, peeled, peelRef?, TypeRef.closedHash,
              Option.some.injEq, Bool.true_and, decide_eq_true_eq]
            by_cases same : definition = other
            · rw [if_pos same, if_pos same.symm]
              rfl
            · rw [if_neg same, if_neg fun equal => same equal.symm]
              rfl

/-- It does not matter if costs are cut off at every position or only at the end. -/
theorem scoreFrom_eq (requested : List TypeHash) (parameters : List TypeRef) (total : Nat) :
    scoreFrom catalog (saturate total) requested parameters
      = (ranks? catalog requested parameters).map fun ranks =>
        saturate (Rank.costs total ranks) := by
  induction requested generalizing parameters total with
  | nil => cases parameters <;> rfl
  | cons head tail ih =>
    cases parameters with
    | nil => rfl
    | cons parameter rest =>
      rw [scoreFrom, position_eq hasBases, ranks?]
      cases rank? catalog head parameter with
      | none => rfl
      | some rank =>
        have once : (if rank = .exact then saturate total else saturate (rank.cost (saturate total)))
            = saturate (rank.cost total) := by
          cases rank <;> simp only [Rank.cost, saturate, reduceCtorEq, if_true, if_false] <;> omega
        simp only [Option.map_some, once]
        rw [ih]
        cases ranks? catalog tail rest <;> rfl

/-- Up to thirty-one positions the distance is the sum of all costs, and the
ceiling is not reached. -/
theorem score_eq (few : requested.length ≤ 31) (parameters : List TypeRef) :
    score catalog requested parameters = (ranks? catalog requested parameters).map (Rank.costs 0)
      ∧ ∀ cost, score catalog requested parameters = some cost -> cost < ceiling := by
  rw [show score catalog requested parameters = _ from scoreFrom_eq hasBases _ _ 0]
  cases isRanks : ranks? catalog requested parameters with
  | none => exact ⟨rfl, nofun⟩
  | some ranks =>
    have below : Rank.costs 0 ranks + 2 ≤ 2 <<< 31 := by
      refine Nat.le_trans (Rank.costs_le 0 ranks) ?_
      rw [length_of_ranks? isRanks, Nat.shiftLeft_eq]
      exact Nat.mul_le_mul_left 2 (Nat.pow_le_pow_right Nat.two_pos few)
    have less : Rank.costs 0 ranks < ceiling := Nat.lt_of_succ_le (Nat.le_of_succ_le_succ below)
    simp only [Option.map_some, saturate, Nat.min_eq_left (Nat.le_of_lt less)]
    exact ⟨trivial, fun cost isCost => Option.some.inj isCost ▸ less⟩

end

/-- The cost after a position in closed form, on every catalog that was built and asked for
closed types.  A parameter that is the requested type leaves the cost as it is, a bare
parameter doubles it, an open generic type of the definition of the requested type adds
one, and nothing else takes the type.  The peeling loop meets in its first step or never,
because nothing can be peeled from a definition. -/
theorem position_eq_some_iff {definitions : List TypeDefinition} {built catalog : Catalog}
    (isBuilt : Catalog.build definitions = .ok built) (asked : built.Asked catalog)
    (requested : TypeHash) (parameter : TypeRef) (total : Nat) :
    (∀ cost, position catalog requested parameter total = some cost ↔
      parameter.closedHash = some requested ∧ cost = total
        ∨ parameter.closedHash ≠ some requested ∧ parameter.isBare = true
          ∧ cost = min (2 * (total + 1)) ceiling
        ∨ parameter.closedHash ≠ some requested ∧ parameter.isOpen = true
          ∧ (∃ definition arguments,
            parameter = .generic definition arguments
              ∧ catalog.peel? requested = some definition)
          ∧ cost = min (total + 1) ceiling)
      ∧ (∀ steps, peeled catalog (steps + 1) requested parameter total
        = peeled catalog 1 requested parameter total)
      ∧ ∀ definition, catalog.peel? requested = some definition ->
        catalog.peel? definition = none := by
  have hasBases := (Catalog.hasBases_build isBuilt).asked asked
  refine ⟨fun cost => ?_, fun steps => peeled_succ hasBases steps requested parameter total,
    fun definition => hasBases.peel?_definition⟩
  rw [position_eq hasBases]
  unfold rank?
  by_cases same : parameter.closedHash = some requested
  · simp [same, @eq_comm Nat _ cost]
  · cases parameter with
    | void | concrete => simp [same, TypeRef.isBare]
    | typeParameter | methodParameter =>
      simp [same, TypeRef.isBare, Rank.cost, saturate, @eq_comm Nat _ cost, Nat.mul_comm]
    | generic definition arguments =>
      simp [same, TypeRef.isBare, Rank.cost, saturate, @eq_comm Nat _ cost, and_assoc]

/-- A generic parameter takes an integer at twice the cost, and arrays of generic elements
take an array of integers, once it is peeled, for one more. -/
theorem position_bare_peeled : ∃ built catalog, Catalog.build [] = .ok built
    ∧ built.Asked catalog ∧ position catalog .int (.methodParameter 0) 3 = some 8
    ∧ position catalog (.ofInstance (.arrayDefinition 1) [.int])
      (.generic (.arrayDefinition 1) [.methodParameter 0]) 3 = some 4 := by
  obtain ⟨built, isBuilt⟩ := Catalog.exists_build_nil
  have holds := Catalog.holds_build isBuilt
  have asked := (Catalog.regular_closeArray .int 1).closes built
  rw [Catalog.lookup_closeArray isBuilt rfl rfl] at asked
  have cost (requested parameter) := (position_eq_some_iff isBuilt asked requested parameter 3).1
  refine ⟨built, _, isBuilt, asked, (cost _ _ 8).mpr (.inr (.inl ⟨nofun, rfl, rfl⟩)),
    (cost _ _ 4).mpr (.inr (.inr ⟨nofun, rfl, ⟨_, _, rfl, ?_⟩, rfl⟩))⟩
  have closed : built.types[TypeHash.ofInstance (.arrayDefinition 1) [.int]]? = none := by
    rw [holds.types]
    rfl
  rw [Catalog.peel?, Catalog.get?, Catalog.withInstance,
    Std.HashMap.contains_eq_isSome_getElem?, holds.instances]
  simp [closed]
  rfl

/-- A candidate has the highest distance if it does not take the requested types, and also
if its costs reach the ceiling.  Up to thirty-one types the highest distance is left to those
that do not take them.  Generic parameters come nearest to the ceiling: each doubles the
cost, and thirty-two of them reach it although they take any types. -/
theorem distance_eq_ceiling_iff {definitions : List TypeDefinition} {built catalog : Catalog}
    (isBuilt : Catalog.build definitions = .ok built) (asked : built.Asked catalog)
    (requested : List TypeHash) (parameters : List TypeRef) :
    (distance catalog requested parameters = ceiling ↔
      compatible catalog requested parameters = false
        ∨ ∃ ranks, ranks? catalog requested parameters = some ranks
          ∧ ceiling ≤ Rank.costs 0 ranks)
      ∧ (requested.length ≤ 31 -> (distance catalog requested parameters = ceiling ↔
        compatible catalog requested parameters = false))
      ∧ (parameters.length = requested.length ->
        (∀ parameter, parameter ∈ parameters -> parameter.isBare = true) ->
        compatible catalog requested parameters = true
          ∧ distance catalog requested parameters = min (2 <<< requested.length - 2) ceiling) := by
  have hasBases := (Catalog.hasBases_build isBuilt).asked asked
  have isScore : score catalog requested parameters = _ := scoreFrom_eq hasBases _ _ 0
  refine ⟨?_, fun few => ?_, fun sameLength bare => ?_⟩
  · rw [distance, compatible, isScore]
    cases ranks? catalog requested parameters with
    | none => simp
    | some ranks => simp [saturate]
  · rw [distance, compatible]
    cases isCost : score catalog requested parameters with
    | none => simp
    | some cost =>
      have below := (score_eq hasBases few parameters).2 cost isCost
      simp [Nat.ne_of_lt below]
  · rw [distance, compatible, isScore, ranks?_of_isBare catalog sameLength.symm bare]
    have isCost := Rank.costs_replicate_bare 0 requested.length
    simp only [Option.map_some, Option.isSome_some, Option.getD_some, saturate, true_and]
    rw [← isCost, Nat.add_sub_cancel]

/-- Thirty-two generic parameters take any types, at the distance that stands for none. -/
theorem distance_bare_eq_ceiling : ∃ catalog, Catalog.build [] = .ok catalog
    ∧ ∀ parameter : TypeRef, parameter.isBare = true ->
      compatible catalog (List.replicate 32 .int) (List.replicate 32 parameter) = true
        ∧ distance catalog (List.replicate 32 .int) (List.replicate 32 parameter) = ceiling
        ∧ distance catalog (List.replicate 31 .int) (List.replicate 31 parameter) ≠ ceiling := by
  obtain ⟨catalog, built⟩ := Catalog.exists_build_nil
  refine ⟨catalog, built, fun parameter isBare => ?_⟩
  have takes (count : Nat) := (distance_eq_ceiling_iff built .nothing (List.replicate count .int)
    (List.replicate count parameter)).2.2 (by simp) (by simp_all)
  refine ⟨(takes 32).1, (takes 32).2.trans (by rw [List.length_replicate]; decide), ?_⟩
  rw [(takes 31).2, List.length_replicate]
  decide

/-! ## The first of the cheapest -/

/-- What makes a candidate the right one among others. -/
structure IsBest (catalog : Catalog) (requested : List TypeHash) (candidates : List Candidate)
    (chosen : Candidate) : Prop where
  takes : compatible catalog requested chosen.parameters = true
  undominated : ∀ candidate, candidate ∈ candidates ->
    ¬ Dominates catalog requested candidate.parameters chosen.parameters
  least : ∀ candidate, candidate ∈ candidates ->
    distance catalog requested chosen.parameters ≤ distance catalog requested candidate.parameters
  first : ∃ front back, candidates = front ++ chosen :: back
    ∧ ∀ candidate, candidate ∈ front ->
      distance catalog requested chosen.parameters < distance catalog requested candidate.parameters

section

variable {catalog : Catalog} (hasBases : catalog.HasBases) {requested : List TypeHash}
  (few : requested.length ≤ 31)

include hasBases few

/-- The better of two is kept, and the earlier one of two that are equally good.
The induction is on the candidates from the right, as they are compared. -/
theorem select_cases (candidates : List Candidate) :
    let best := (candidates.filterMap fun candidate =>
      (score catalog requested candidate.parameters).map fun cost => (cost, candidate)).foldl
        better none
    (best = none ∧ ∀ candidate, candidate ∈ candidates ->
        score catalog requested candidate.parameters = none)
      ∨ ∃ front chosen back least,
        best = some (least, chosen) ∧ candidates = front ++ chosen :: back
          ∧ score catalog requested chosen.parameters = some least
          ∧ (∀ candidate, candidate ∈ candidates ->
            least ≤ distance catalog requested candidate.parameters)
          ∧ ∀ candidate, candidate ∈ front ->
            least < distance catalog requested candidate.parameters := by
  have below {parameters : List TypeRef} := (score_eq hasBases few parameters).2
  induction candidates using List.reverseRecOn with
  | nil => exact .inl ⟨rfl, nofun⟩
  | append_singleton candidates last ih =>
    rw [List.filterMap_append, List.foldl_append, List.filterMap_cons]
    have isDistance {cost : Nat} (isCost : score catalog requested last.parameters = some cost) :
        distance catalog requested last.parameters = cost := by
      rw [distance, isCost, Option.getD_some]
    have takes {cost : Nat} (isCost : score catalog requested last.parameters = some cost)
        (before : ∀ candidate, candidate ∈ candidates ->
          cost < distance catalog requested candidate.parameters) :=
      List.forall_mem_append.mpr ⟨fun candidate member => Nat.le_of_lt (before candidate member),
        List.forall_mem_singleton.mpr (Nat.le_of_eq (isDistance isCost).symm)⟩
    rcases ih with ⟨isNone, none⟩ | ⟨front, chosen, back, least, isBest, split, isLeast, all, before⟩
    · rw [isNone]
      cases isCost : score catalog requested last.parameters with
      | none =>
        exact .inl ⟨rfl, List.forall_mem_append.mpr ⟨none, List.forall_mem_singleton.mpr isCost⟩⟩
      | some cost =>
        have before (candidate : Candidate) (member : candidate ∈ candidates) :
            cost < distance catalog requested candidate.parameters := by
          rw [distance, none candidate member]
          exact below cost isCost
        exact .inr ⟨candidates, last, [], cost, rfl, rfl, isCost, takes isCost before, before⟩
    · have stays (dearer : least ≤ distance catalog requested last.parameters) :=
        List.forall_mem_append.mpr ⟨all, List.forall_mem_singleton.mpr dearer⟩
      have longer : candidates ++ [last] = front ++ chosen :: (back ++ [last]) := by simp [split]
      rw [isBest]
      cases isCost : score catalog requested last.parameters with
      | none =>
        refine .inr ⟨front, chosen, _, least, rfl, longer, isLeast, stays ?_, before⟩
        rw [distance, isCost]
        exact Nat.le_of_lt (below least isLeast)
      | some cost =>
        simp only [Option.map_some, List.foldl_cons, better]
        split
        · rename_i cheaper
          have before (candidate : Candidate) (member : candidate ∈ candidates) :=
            Nat.lt_of_lt_of_le cheaper (all candidate member)
          exact .inr ⟨candidates, last, [], cost, rfl, rfl, isCost, takes isCost before, before⟩
        · rename_i dearer
          exact .inr ⟨front, chosen, _, least, rfl, longer, isLeast,
            stays (isDistance isCost ▸ Nat.le_of_not_lt dearer), before⟩

/-- What is chosen is compatible, not dominated, and the first of the nearest. -/
theorem isBest_of_select (selected : select catalog requested candidates = some chosen) :
    IsBest catalog requested candidates chosen := by
  rcases select_cases hasBases few candidates with ⟨isNone, _⟩
    | ⟨front, best, back, least, isBest, split, isLeast, all, before⟩
  · cases (congrArg (Option.map Prod.snd) isNone).symm.trans selected
  · cases (congrArg (Option.map Prod.snd) isBest).symm.trans selected
    have isDistance : distance catalog requested best.parameters = least := by
      rw [distance, isLeast, Option.getD_some]
    rw [← isDistance] at all before
    refine ⟨by rw [compatible, isLeast, Option.isSome_some], fun candidate member dominates => ?_,
      all, front, back, split, before⟩
    obtain ⟨_, _, isBetter, isWorse, exacter, strictly⟩ := dominates
    have cheaper := Rank.costs_lt_costs exacter (Nat.le_refl 0) (.inl strictly)
    have nearest := all candidate member
    rw [distance, distance, (score_eq hasBases few _).1, (score_eq hasBases few _).1, isBetter,
      isWorse] at nearest
    exact Nat.not_lt.mpr nearest cheaper

end

/-- What comes first in a list was put there by its front, if something that the
front has put there does not come before it. -/
private theorem mem_of_flatMap_split {α β : Type} {parts : α -> List β} {first second : List α}
    {front back : List β} {item other : β}
    (split : (first ++ second).flatMap parts = front ++ item :: back)
    (member : other ∈ first.flatMap parts) (outside : other ∉ front) :
    item ∈ first.flatMap parts := by
  rw [List.flatMap_append] at split
  rcases List.append_eq_append_iff.mp split with ⟨rest, rfl, _⟩ | ⟨rest, isFirst, later⟩
  · exact absurd (List.mem_append_left rest member) outside
  · cases rest with
    | nil => exact absurd (List.append_nil front ▸ isFirst ▸ member) outside
    | cons =>
      cases later
      exact isFirst ▸ List.mem_append_right front (.head _)

/-- A choice among at most thirty-one types each: nothing is chosen exactly if no
candidate takes them.  What is chosen is not dominated, its distance is the least
one, and it is the first with this distance; so among the methods of a name, it
is declared by one of the more derived types if one of them has a method that is
as near.  The distances are sums that are never cut off. -/
theorem select_undominated {definitions : List TypeDefinition} {built catalog : Catalog}
    (isBuilt : Catalog.build definitions = .ok built) (asked : built.Asked catalog)
    {requested : List TypeHash} (few : requested.length ≤ 31) (candidates : List Candidate) :
    (select catalog requested candidates = none ↔ ∀ candidate, candidate ∈ candidates ->
        compatible catalog requested candidate.parameters = false)
      ∧ (∀ chosen, select catalog requested candidates = some chosen ->
        IsBest catalog requested candidates chosen)
      ∧ (∀ owner name chosen,
        select catalog requested (catalog.methodsNamed owner name) = some chosen ->
        ∀ derived bases, catalog.hierarchy owner = derived ++ bases ->
          (∃ type, type ∈ derived ∧ ∃ method, method ∈ type.1.methods
            ∧ method.name = name
            ∧ distance catalog requested (Catalog.candidate type.2 method).parameters
              ≤ distance catalog requested chosen.parameters) ->
          ∃ type, type ∈ derived ∧ chosen.method ∈ type.1.methods)
      ∧ ∀ parameters, score catalog requested parameters
          = (ranks? catalog requested parameters).map (Rank.costs 0)
        ∧ (compatible catalog requested parameters = true ->
          distance catalog requested parameters < ceiling) := by
  have hasBases := (Catalog.hasBases_build isBuilt).asked asked
  refine ⟨⟨fun isNone candidate member => ?_, fun none => ?_⟩,
    fun chosen => isBest_of_select hasBases few, ?_, fun parameters => ?_⟩
  · rcases select_cases hasBases few candidates with ⟨_, none⟩ | ⟨_, _, _, _, isBest, _⟩
    · rw [compatible, none candidate member, Option.isSome_none]
    · cases isNone.symm.trans (congrArg (Option.map Prod.snd) isBest)
  · cases selected : select catalog requested candidates with
    | none => rfl
    | some chosen =>
      have best := isBest_of_select hasBases few selected
      obtain ⟨front, back, rfl, _⟩ := best.first
      cases best.takes.symm.trans (none chosen (by simp))
  · rintro owner name chosen selected derived bases isHierarchy
      ⟨type, isDerived, method, declared, named, near⟩
    obtain ⟨_, _, split, before⟩ := (isBest_of_select hasBases few selected).first
    unfold Catalog.methodsNamed at split
    rw [isHierarchy] at split
    have chosenBefore := mem_of_flatMap_split split (List.mem_flatMap.mpr ⟨type, isDerived,
      List.mem_map_of_mem (List.mem_filter.mpr ⟨declared, decide_eq_true named⟩)⟩)
      fun inFront => Nat.not_lt.mpr near (before _ inFront)
    obtain ⟨other, inDerived, isChosen⟩ := List.mem_flatMap.mp chosenBefore
    obtain ⟨own, isOwn, rfl⟩ := List.mem_map.mp isChosen
    exact ⟨other, inDerived, (List.mem_filter.mp isOwn).1⟩
  · obtain ⟨isScore, below⟩ := score_eq hasBases few parameters
    refine ⟨isScore, fun isCompatible => ?_⟩
    obtain ⟨cost, isCost⟩ := Option.isSome_iff_exists.mp isCompatible
    rw [distance, isCost]
    exact below cost isCost

/-- A parameter of the requested type is chosen against a generic parameter. -/
theorem select_exact_undominated : ∃ catalog, Catalog.build [] = .ok catalog
    ∧ ∀ method : MethodEntry, IsBest catalog [.int]
      [⟨method, [.methodParameter 0]⟩, ⟨method, [.int]⟩] ⟨method, [.int]⟩ := by
  obtain ⟨catalog, built⟩ := Catalog.exists_build_nil
  refine ⟨catalog, built, fun method => ?_⟩
  exact (select_undominated built .nothing (by decide) _).2.1 _ rfl

end Overload
end OpMachine
