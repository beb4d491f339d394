import OpMachine.Catalog.Members

namespace OpMachine
namespace Overload

/-!
Overload resolution.

Requested types are compared with the parameters of a candidate from the left.
An exact match costs nothing, a generic type of the same definition costs one
step of peeling, and a bare generic parameter takes anything at a cost that
doubles what was paid so far.  The cheapest candidate is chosen, and among
equally cheap ones the first.
-/

/-- The highest distance; larger ones are counted as this one. -/
def ceiling : Nat := 0xffffffff

def saturate (distance : Nat) : Nat := min distance ceiling

variable (catalog : Catalog)

/-- A reference with its outermost type arguments taken off. -/
def peelRef? : TypeRef -> Option TypeRef
  | .generic definition _ => some (.concrete definition)
  | .concrete type => (catalog.peel? type).map .concrete
  | _ => none

/-- Peeling of both sides, step by step, until they meet. -/
def peeled (catalog : Catalog) : Nat -> TypeHash -> TypeRef -> Nat -> Option Nat
  | 0, _, _, _ => none
  | steps + 1, requested, parameter, total =>
      match catalog.peel? requested, peelRef? catalog parameter with
      | some requested, some parameter =>
          let total := saturate (total + 1)
          if parameter.closedHash = some requested then some total
          else peeled catalog steps requested parameter total
      | _, _ => none

/-- The cost after one position, if its parameter takes the requested type. -/
def position (requested : TypeHash) (parameter : TypeRef) (total : Nat) : Option Nat :=
  if parameter.closedHash = some requested then some total
  else if parameter.isBare then some (saturate (saturate (total + 1) * 2))
  else if !parameter.isOpen || !catalog.isClosedGeneric requested then none
  else peeled catalog (catalog.instances.size + 1) requested parameter total

def scoreFrom (catalog : Catalog) : Nat -> List TypeHash -> List TypeRef -> Option Nat
  | total, requested :: rest, parameter :: parameters =>
      match position catalog requested parameter total with
      | some total => scoreFrom catalog total rest parameters
      | none => none
  | total, [], [] => some total
  | _, _, _ => none

def score (requested : List TypeHash) (parameters : List TypeRef) : Option Nat :=
  scoreFrom catalog 0 requested parameters

def compatible (requested : List TypeHash) (parameters : List TypeRef) : Bool :=
  (score catalog requested parameters).isSome

/-- The distance of a candidate; the highest one stands for no match. -/
def distance (requested : List TypeHash) (parameters : List TypeRef) : Nat :=
  (score catalog requested parameters).getD ceiling

/-- The first of equally good candidates stays. -/
def better (best : Option (Nat × Candidate)) (later : Nat × Candidate) :
    Option (Nat × Candidate) :=
  match best with
  | none => some later
  | some best => if later.1 < best.1 then some later else some best

/-- The first of the cheapest candidates that take the requested types. -/
def select (requested : List TypeHash) (candidates : List Candidate) : Option Candidate :=
  let scored := candidates.filterMap fun candidate =>
    (score catalog requested candidate.parameters).map fun distance => (distance, candidate)
  (scored.foldl better none).map (·.2)

end Overload
end OpMachine
