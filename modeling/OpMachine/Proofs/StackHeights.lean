import OpMachine.Proofs.CodeSafety

namespace OpMachine

/-!
# Heights of the stack

Code keeps a discipline with the stack if every position has a height that all
ways to it agree on.  `Code.Climbs` says of a piece of structured code that
wherever it stands such heights exist, from one at its start to one behind its
end and never below a floor, and that the parts it was emitted for are balanced:
an expression leaves one value more, or none if its value is dropped, and takes
nothing that lay on the stack before it; statements begin and end with an empty
stack.

There is one rule for each way in which code is put together.  The heights of
the parts are glued at the position where one part ends and the next begins, so
what a rule needs is only that both agree there.
-/

/-! ## Parts of code -/

namespace Instruction

/-- Instructions that stand together among others, from a start on. -/
def Within (offset start : Nat) (inner outer : List Instruction) : Prop :=
  ∃ front back, outer = front ++ (inner ++ back) ∧ start = offset + totalSize front

namespace Within

variable {offset start : Nat} {inner outer first second : List Instruction}

theorem refl : Within offset offset inner inner :=
  ⟨[], [], (List.append_nil _).symm, rfl⟩

theorem left (within : Within offset start inner first) :
    Within offset start inner (first ++ second) := by
  rcases within with ⟨front, back, rfl, rfl⟩
  exact ⟨front, back ++ second, by simp only [List.append_assoc], rfl⟩

theorem right (within : Within (offset + totalSize first) start inner second) :
    Within offset start inner (first ++ second) := by
  rcases within with ⟨front, back, rfl, rfl⟩
  refine ⟨first ++ front, back, (List.append_assoc _ _ _).symm, ?_⟩
  rw [totalSize_append, Nat.add_assoc]

theorem trans (outside : Within offset start inner outer)
    (inside : Within start start' innermost inner) : Within offset start' innermost outer := by
  rcases outside with ⟨front, back, rfl, rfl⟩
  exact right (left inside)

theorem place_subset (within : Within offset start inner outer) :
    place start inner ⊆ place offset outer := by
  rcases within with ⟨front, back, rfl, rfl⟩
  rw [place_append, place_append]
  exact fun _ member => List.mem_append_right _ (List.mem_append_left _ member)

theorem inside (within : Within offset start inner outer) :
    offset ≤ start ∧ start + totalSize inner ≤ offset + totalSize outer := by
  rcases within with ⟨front, back, rfl, rfl⟩
  rw [totalSize_append, totalSize_append]
  omega

end Within
end Instruction

open Instruction

namespace Code

variable {Mark : Type} {code part : Code Mark} {offset start : Nat} {mark : Mark}

/-- A property of all marks in a piece of code. -/
def EachMark (Property : Mark -> Prop) : Code Mark -> Prop
  | .empty => True
  | .single _ => True
  | .append first second => first.EachMark Property ∧ second.EachMark Property
  | .branch whenTrue whenFalse => whenTrue.EachMark Property ∧ whenFalse.EachMark Property
  | .guarded whenTrue => whenTrue.EachMark Property
  | .loop condition body => condition.EachMark Property ∧ body.EachMark Property
  | .marked mark part => Property mark ∧ part.EachMark Property

/-- The marked parts of a piece of code that stands at an offset, each with its
start and its mark. -/
def parts (offset : Nat) : Code Mark -> List (Nat × Mark × Code Mark)
  | .empty => []
  | .single _ => []
  | .append first second => first.parts offset ++ second.parts (offset + first.size)
  | .branch whenTrue whenFalse =>
    whenTrue.parts (offset + jumpSize)
      ++ whenFalse.parts (offset + jumpSize + whenTrue.size + jumpSize)
  | .guarded whenTrue => whenTrue.parts (offset + jumpSize)
  | .loop condition body =>
    condition.parts offset ++ body.parts (offset + condition.size + jumpSize)
  | .marked mark part => (offset, mark, part) :: part.parts offset

theorem within_of_part (member : (start, mark, part) ∈ code.parts offset) :
    Instruction.Within offset start part.instructions code.instructions := by
  induction code generalizing offset with
  | empty | single => cases member
  | append first _ inFirst inSecond =>
    rcases List.mem_append.mp member with here | later
    · exact .left (inFirst here)
    · refine .right ?_
      rw [first.totalSize_instructions]
      exact inSecond later
  | branch whenTrue whenFalse inTrue inFalse =>
    change Instruction.Within offset start part.instructions
      ([jumpIfFalse (whenTrue.size + jumpSize)] ++ (whenTrue.instructions
        ++ ([jump whenFalse.size] ++ whenFalse.instructions)))
    rcases List.mem_append.mp member with here | later
    · exact .right (.left (inTrue here))
    · refine .right (.right (.right ?_))
      rw [whenTrue.totalSize_instructions]
      exact inFalse later
  | guarded whenTrue inTrue =>
    change Instruction.Within offset start part.instructions
      ([jumpIfFalse whenTrue.size] ++ whenTrue.instructions)
    exact .right (inTrue member)
  | loop condition body inCondition inBody =>
    change Instruction.Within offset start part.instructions
      ((condition.instructions ++ ([jumpIfFalse (body.size + jumpSize)] ++ body.instructions))
        ++ [_])
    rcases List.mem_append.mp member with here | later
    · exact .left (.left (inCondition here))
    · refine .left (.right (.right ?_))
      rw [condition.totalSize_instructions]
      exact inBody later
  | marked _ _ inInner =>
    rcases List.mem_cons.mp member with same | below
    · cases same
      exact .refl
    · exact inInner below

theorem parts_subset (member : (start, mark, part) ∈ code.parts offset) :
    part.parts start ⊆ code.parts offset := by
  induction code generalizing offset with
  | empty | single => cases member
  | append _ _ inFirst inSecond | branch _ _ inFirst inSecond | loop _ _ inFirst inSecond =>
    rcases List.mem_append.mp member with here | later
    · exact List.subset_append_of_subset_left _ (inFirst here)
    · exact List.subset_append_of_subset_right _ (inSecond later)
  | guarded _ inTrue => exact inTrue member
  | marked _ _ inInner =>
    rcases List.mem_cons.mp member with same | below
    · cases same
      exact List.subset_cons_self _ _
    · exact List.subset_cons_of_subset _ (inInner below)

/-- A piece of code that stands in another one, from a start on. -/
structure StandsIn (part code : Code Mark) (offset start : Nat) : Prop where
  within : Instruction.Within offset start part.instructions code.instructions
  parts : part.parts start ⊆ code.parts offset

namespace StandsIn

variable {code part front back : Code Mark} {offset start : Nat} {mark : Mark}

theorem of_part (member : (start, mark, part) ∈ code.parts offset) :
    part.StandsIn code offset start :=
  ⟨within_of_part member, parts_subset member⟩

theorem first (stands : (front ++ back).StandsIn code offset start) :
    front.StandsIn code offset start where
  within := stands.within.trans (.left .refl)
  parts := fun _ member => stands.parts (List.mem_append_left _ member)

theorem second (stands : (front ++ back).StandsIn code offset start) :
    back.StandsIn code offset (start + front.size) where
  within := by
    refine stands.within.trans (.right ?_)
    rw [front.totalSize_instructions]
    exact .refl
  parts := fun _ member => stands.parts (List.mem_append_right _ member)

theorem mem_place (stands : (single instruction : Code Mark).StandsIn code offset start) :
    (start, instruction) ∈ place offset code.instructions :=
  stands.within.place_subset (.head _)

end StandsIn

theorem parts_inside (member : (start, mark, part) ∈ code.parts offset) :
    offset ≤ start ∧ start + part.size ≤ offset + code.size := by
  have inside := (within_of_part member).inside
  rwa [part.totalSize_instructions, code.totalSize_instructions] at inside

end Code

/-! ## Heights -/

/-- The number of values that a use of an expression leaves. -/
def ValueUse.gain : ValueUse -> Nat
  | .kept => 1
  | .discarded => 0

/-- What the marks of the compiler say about the stack.  An expression leaves its
value on what was there before it, and takes nothing of that. -/
def CodeMark.Balances (heights : Nat -> Nat) (start : Nat) (part : MarkedCode) : CodeMark -> Prop
  | .expression use _ => heights (start + part.size) = heights start + use.gain
      ∧ ∀ position instruction, (position, instruction) ∈ place start part.instructions ->
          heights start + instruction.takes ≤ heights position
  | .statement _ => heights start = 0 ∧ heights (start + part.size) = 0

/-- The number of values that an instruction leaves in the place of those it
takes, the result of a call included.  What a function value gives is left
open. -/
def CompiledMethod.Gives (method : CompiledMethod) (catalog : Catalog)
    (instruction : Instruction) (count : Nat) : Prop :=
  if instruction.isCall then
    ∃ keep : Bool, count = keep.toNat
      ∧ (method.keeps? catalog instruction = some keep ∨ instruction.opcode = .invokeDelegate)
  else count = instruction.pushes

section

variable {method : CompiledMethod} {catalog : Catalog} {instruction : Instruction} {count : Nat}

theorem CompiledMethod.Gives.eq_of_keeps? (gives : method.Gives catalog instruction count)
    (kept : method.keeps? catalog instruction = some keep) : count = keep.toNat := by
  rw [Gives, if_pos (isCall_of_keeps? kept)] at gives
  rcases gives with ⟨given, rfl, known | named⟩
  · cases kept.symm.trans known
    rfl
  · rw [keeps?, named] at kept
    cases kept

theorem CompiledMethod.Gives.eq_of_plain (gives : method.Gives catalog instruction count)
    (plain : instruction.isCall = false) : count = instruction.pushes := by
  rwa [Gives, if_neg (plain ▸ Bool.false_ne_true)] at gives

end

/-- Heights that agree along instructions in sequence.  Every instruction finds
what it takes above a floor, and wherever the code goes on the height is what is
left. -/
def CompiledMethod.Flows (method : CompiledMethod) (catalog : Catalog) (floor : Nat)
    (heights : Nat -> Nat) (offset : Nat) (instructions : List Instruction) : Prop :=
  ∀ position instruction, (position, instruction) ∈ place offset instructions ->
    floor + instruction.takes ≤ heights position ∧ ∃ count,
      method.Gives catalog instruction count
        ∧ ∀ next, next ∈ instruction.successors position ->
          heights next + instruction.takes = heights position + count

/-- Heights that agree along a piece of code and balance its parts. -/
structure MarkedCode.Heights (code : MarkedCode) (method : CompiledMethod) (catalog : Catalog)
    (floor : Nat) (heights : Nat -> Nat) (offset : Nat) : Prop where
  flows : method.Flows catalog floor heights offset code.instructions
  balanced : ∀ start mark part, (start, mark, part) ∈ code.parts offset ->
    CodeMark.Balances heights start part mark

/-- Wherever the code stands there are heights for it, from one at its start to
one behind its end, both counted from the floor. -/
def MarkedCode.Climbs (code : MarkedCode) (method : CompiledMethod) (catalog : Catalog)
    (floor low high : Nat) : Prop :=
  code.Fits -> ∀ offset, ∃ heights : Nat -> Nat,
    heights offset = floor + low ∧ heights (offset + code.size) = floor + high
      ∧ code.Heights method catalog floor heights offset

open Code (jumpIfFalse jumpSize)

namespace CompiledMethod.Flows

variable {method : CompiledMethod} {catalog : Catalog} {heights : Nat -> Nat}
  {floor offset : Nat} {distance : Nat}

theorem nil : method.Flows catalog floor heights offset [] :=
  nofun

theorem lower (flows : method.Flows catalog floor heights offset instructions)
    (lower : lowest ≤ floor) : method.Flows catalog lowest heights offset instructions := by
  intro position instruction member
  rcases flows position instruction member with ⟨found, agree⟩
  exact ⟨Nat.le_trans (Nat.add_le_add_right lower _) found, agree⟩

theorem append (earlier : method.Flows catalog floor heights offset first)
    (later : method.Flows catalog floor heights (offset + totalSize first) second) :
    method.Flows catalog floor heights offset (first ++ second) := by
  intro position instruction member
  rw [place_append] at member
  rcases List.mem_append.mp member with inFirst | inSecond
  · exact earlier position instruction inFirst
  · exact later position instruction inSecond

theorem single (count : Nat) (found : floor + instruction.takes ≤ heights offset)
    (gives : method.Gives catalog instruction count)
    (agree : ∀ next, next ∈ instruction.successors offset ->
      heights next + instruction.takes = heights offset + count) :
    method.Flows catalog floor heights offset [instruction] := by
  intro position other member
  cases List.mem_singleton.mp member
  exact ⟨found, count, gives, agree⟩

theorem jumpIfFalse (fits : distance < 65536) (above : floor ≤ heights (offset + jumpSize))
    (falls : heights (offset + jumpSize) + 1 = heights offset)
    (jumps : heights (offset + jumpSize + distance) + 1 = heights offset) :
    method.Flows catalog floor heights offset [jumpIfFalse distance] := by
  refine .single 0 (falls ▸ Nat.succ_le_succ above) rfl fun next goes => ?_
  rcases List.mem_cons.mp goes with rfl | isTarget
  · exact falls
  · rw [Code.target?_jumpIfFalse fits] at isTarget
    rw [List.mem_singleton.mp isTarget]
    exact jumps

theorem jump (fits : distance < 65536) (above : floor ≤ heights offset)
    (jumps : heights (offset + Code.jumpSize + distance) = heights offset) :
    method.Flows catalog floor heights offset [Code.jump distance] := by
  refine .single 0 above rfl fun next goes => ?_
  have isTarget : next ∈ ((Code.jump distance).target? offset).toList := goes
  rw [Code.target?_jump fits] at isTarget
  rw [List.mem_singleton.mp isTarget]
  exact jumps

theorem jumpBack (fits : distance + jumpSize < 65536) (above : floor ≤ heights (offset + distance))
    (jumps : heights offset = heights (offset + distance)) :
    method.Flows catalog floor heights (offset + distance)
      [Code.jumpBack (distance + jumpSize)] := by
  refine .single 0 above rfl fun next goes => ?_
  have isTarget : next ∈ ((Code.jumpBack (distance + jumpSize)).target?
      (offset + distance)).toList := goes
  rw [Code.target?_jumpBack fits] at isTarget
  rw [List.mem_singleton.mp isTarget]
  exact jumps

end CompiledMethod.Flows

namespace Instruction

variable {instructions : List Instruction} {offset position : Nat} {instruction : Instruction}

/-- Instructions in sequence stand between the first offset and the one behind
the last. -/
theorem place_inside (member : (position, instruction) ∈ place offset instructions) :
    offset ≤ position ∧ position + instruction.size ≤ offset + totalSize instructions := by
  induction instructions generalizing offset with
  | nil => cases member
  | cons head tail ih =>
    have total := totalSize_cons head tail
    rcases List.mem_cons.mp member with here | later
    · cases here
      omega
    · have inside := ih later
      omega

theorem stops_inside (member : stop ∈ stops offset instructions) :
    offset ≤ stop ∧ stop ≤ offset + totalSize instructions := by
  rcases List.mem_append.mp member with isStart | isEnd
  · rcases List.mem_map.mp isStart with ⟨⟨position, instruction⟩, placed, rfl⟩
    have inside := place_inside placed
    omega
  · rw [List.mem_singleton.mp isEnd]
    omega

theorem successors_inside {Mark : Type} {code : Code Mark} (fits : code.Fits)
    (member : (position, instruction) ∈ place offset code.instructions)
    (goes : next ∈ instruction.successors position) :
    offset ≤ next ∧ next ≤ offset + code.size := by
  have inside := place_inside member
  rw [code.totalSize_instructions] at inside
  have ahead : offset ≤ position + instruction.size
      ∧ position + instruction.size ≤ offset + code.size := by
    omega
  have leads (isJump : instruction.opcode.isJump = true)
      (isTarget : next ∈ (instruction.target? position).toList) :
      offset ≤ next ∧ next ≤ offset + code.size := by
    rcases code.jumpsInside fits position instruction member isJump with ⟨target, found, stop⟩
    rw [found] at isTarget
    cases List.mem_singleton.mp isTarget
    have stopInside := stops_inside stop
    rwa [code.totalSize_instructions] at stopInside
  unfold successors at goes
  cases named : instruction.opcode
  case jump | loop =>
    rw [named] at goes
    exact leads (named ▸ rfl) goes
  case jumpIfFalse =>
    rw [named] at goes
    rcases List.mem_cons.mp goes with rfl | isTarget
    · exact ahead
    · exact leads (named ▸ rfl) isTarget
  case returnValue | returnVoid =>
    rw [named] at goes
    cases goes
  all_goals
    rw [named] at goes
    rw [List.mem_singleton.mp goes]
    exact ahead

end Instruction

/-! ## Gluing -/

/-- Heights of a first part up to a position, and of a second one from there on. -/
def glue (position : Nat) (first second : Nat -> Nat) (offset : Nat) : Nat :=
  if offset < position then first offset else second offset

section

variable {position offset : Nat} (first second : Nat -> Nat)

theorem glue_before (before : offset < position) :
    glue position first second offset = first offset :=
  if_pos before

theorem glue_behind (behind : position ≤ offset) :
    glue position first second offset = second offset :=
  if_neg (Nat.not_lt.mpr behind)

theorem glue_until (agree : first position = second position) (before : offset ≤ position) :
    glue position first second offset = first offset := by
  rcases Nat.lt_or_eq_of_le before with earlier | rfl
  · exact glue_before first second earlier
  · exact (glue_behind first second before).trans agree.symm

end

namespace MarkedCode

variable {method : CompiledMethod} {catalog : Catalog} {heights : Nat -> Nat}
  {floor low middle high : Nat} {code : MarkedCode} {offset : Nat}

/-- Heights matter only from the start of the code to its end. -/
theorem Heights.congr (fits : code.Fits) (climbs : code.Heights method catalog floor heights offset)
    (same : ∀ position, offset ≤ position -> position ≤ offset + code.size ->
      other position = heights position) : code.Heights method catalog floor other offset where
  flows := by
    intro position instruction member
    rcases climbs.flows position instruction member with ⟨found, count, gives, agree⟩
    have inside := place_inside member
    rw [code.totalSize_instructions] at inside
    have here := same position inside.1 (Nat.le_of_add_right_le inside.2)
    refine ⟨here ▸ found, count, gives, fun next goes => ?_⟩
    have nextInside := successors_inside fits member goes
    rw [here, same next nextInside.1 nextInside.2]
    exact agree next goes
  balanced := by
    intro start mark part member
    rcases Code.parts_inside member with ⟨startInside, stopInside⟩
    have atStart := same start startInside (Nat.le_of_add_right_le stopInside)
    have atStop := same (start + part.size) (Nat.le_add_right_of_le startInside) stopInside
    have balances := climbs.balanced start mark part member
    cases mark with
    | statement => exact ⟨atStart.trans balances.1, atStop.trans balances.2⟩
    | expression =>
      refine ⟨by rw [atStart, atStop]; exact balances.1, fun position instruction placed => ?_⟩
      have inside := place_inside placed
      rw [part.totalSize_instructions] at inside
      rw [atStart, same position (Nat.le_trans startInside inside.1)
        (Nat.le_trans (Nat.le_of_add_right_le inside.2) stopInside)]
      exact balances.2 position instruction placed

namespace Climbs

theorem empty : Climbs .empty method catalog floor low low := by
  intro _ offset
  exact ⟨fun _ => floor + low, rfl, rfl, .nil, nofun⟩

variable {instruction : Instruction} {operation : Operation} {part whenTrue : MarkedCode}

/-- An instruction that is no jump.  Behind a return any height will do. -/
theorem single (found : instruction.takes ≤ low) (gives : method.Gives catalog instruction count)
    (agree : ∀ offset next, next ∈ instruction.successors offset ->
      next = offset + instruction.size ∧ high + instruction.takes = low + count) :
    Climbs (.single instruction) method catalog floor low high := by
  intro _ offset
  have behind : ¬ offset + instruction.size ≤ offset := by
    have := instruction.size_pos
    omega
  refine ⟨fun position => if position ≤ offset then floor + low else floor + high,
    if_pos .refl, if_neg behind, .single count ?_ gives ?_,
    nofun⟩
  · rw [if_pos .refl]
    exact Nat.add_le_add_left found floor
  · intro next goes
    rcases agree offset next goes with ⟨rfl, balanced⟩
    rw [if_neg behind, if_pos .refl, Nat.add_assoc, balanced, Nat.add_assoc]

theorem onward (base : Nat) (gives : method.Gives catalog instruction count)
    (straight : ∀ offset, instruction.successors offset = [offset + instruction.size])
    (below : base + instruction.takes = low) (above : base + count = high) :
    Climbs (.single instruction) method catalog floor low high := by
  refine single (below ▸ Nat.le_add_left _ _) gives fun offset next goes => ?_
  rw [straight] at goes
  refine ⟨List.mem_singleton.mp goes, ?_⟩
  rw [← above, ← below]
  exact Nat.add_right_comm _ _ _

theorem exchange (base : Nat) (below : base + instruction.takes = low)
    (above : base + instruction.pushes = high) (plain : instruction.isCall = false)
    (straight : ∀ offset, instruction.successors offset = [offset + instruction.size]) :
    Climbs (.single instruction) method catalog floor low high := by
  refine onward base ?_ straight below above
  rw [CompiledMethod.Gives, plain]
  exact rfl

theorem call (base : Nat) (keep : Bool) (kept : method.keeps? catalog instruction = some keep
      ∨ instruction.opcode = .invokeDelegate)
    (below : base + instruction.takes = low) (above : base + keep.toNat = high)
    (isCall : instruction.isCall = true)
    (straight : ∀ offset, instruction.successors offset = [offset + instruction.size]) :
    Climbs (.single instruction) method catalog floor low high := by
  refine onward base ?_ straight below above
  rw [CompiledMethod.Gives, isCall]
  exact ⟨keep, rfl, kept⟩

theorem returnValue : Climbs (.plain .returnValue rfl) method catalog floor (low + 1) high :=
  single (Nat.le_add_left _ _) rfl nofun

theorem returnVoid : Climbs (.plain .returnVoid rfl) method catalog floor low high :=
  single (Nat.zero_le _) rfl nofun

theorem append {first second : MarkedCode} (earlier : first.Climbs method catalog floor low middle)
    (later : second.Climbs method catalog floor middle high) :
    (first ++ second).Climbs method catalog floor low high := by
  intro fits offset
  rcases earlier fits.1 offset with ⟨before, atStart, atMiddle, firstHeights⟩
  rcases later fits.2 (offset + first.size) with ⟨behind, atJoint, atEnd, secondHeights⟩
  have agree : before (offset + first.size) = behind (offset + first.size) :=
    atMiddle.trans atJoint.symm
  have inFirst := firstHeights.congr fits.1 fun _ _ => glue_until before behind agree
  have inSecond := secondHeights.congr fits.2 fun _ inside _ => glue_behind before behind inside
  refine ⟨glue (offset + first.size) before behind, ?_, ?_, ?_, ?_⟩
  · rw [glue_until before behind agree (Nat.le_add_right _ _), atStart]
  · rw [Code.size_append, ← Nat.add_assoc, glue_behind before behind (Nat.le_add_right _ _), atEnd]
  · refine .append inFirst.flows ?_
    rw [first.totalSize_instructions]
    exact inSecond.flows
  · intro start stop mark member
    rcases List.mem_append.mp member with inside | inside
    · exact inFirst.balanced start stop mark inside
    · exact inSecond.balanced start stop mark inside

theorem statement (climbs : part.Climbs method catalog 0 0 0) :
    Climbs (.marked (.statement operation) part) method catalog 0 0 0 := by
  intro fits offset
  rcases climbs fits offset with ⟨heights, atStart, atEnd, inPart⟩
  refine ⟨heights, atStart, atEnd, inPart.flows, ?_⟩
  intro start mark inner member
  rcases List.mem_cons.mp member with same | inside
  · cases same
    exact ⟨atStart, atEnd⟩
  · exact inPart.balanced start mark inner inside

/-- An expression has its own start as its floor. -/
theorem expression (climbs : part.Climbs method catalog (floor + low) 0 use.gain)
    (gains : high = low + use.gain) :
    Climbs (.marked (.expression use operation) part) method catalog floor low high := by
  intro fits offset
  rcases climbs fits offset with ⟨heights, atStart, atEnd, inPart⟩
  have gained : heights (offset + part.size) = heights offset + use.gain := by
    rw [atStart, atEnd]
    rfl
  refine ⟨heights, atStart, ?_, inPart.flows.lower (Nat.le_add_right _ _), ?_⟩
  · rw [gains, ← Nat.add_assoc]
    exact atEnd
  · intro start mark inner member
    rcases List.mem_cons.mp member with same | inside
    · cases same
      refine ⟨gained, fun position instruction placed => ?_⟩
      rw [atStart]
      exact (inPart.flows position instruction placed).1
    · exact inPart.balanced start mark inner inside

/-- One of two parts runs, and both end at the same height. -/
theorem branch {whenFalse : MarkedCode} (onTrue : whenTrue.Climbs method catalog floor low high)
    (onFalse : whenFalse.Climbs method catalog floor low high) :
    Climbs (.branch whenTrue whenFalse) method catalog floor (low + 1) high := by
  intro ⟨trueSmall, falseSmall, trueFits, falseFits⟩ offset
  let trueStart := offset + jumpSize
  let falseStart := trueStart + whenTrue.size + jumpSize
  rcases onTrue trueFits trueStart with ⟨inTrue, atTrue, behindTrue, trueHeights⟩
  rcases onFalse falseFits falseStart with ⟨inFalse, atFalse, behindFalse, falseHeights⟩
  let heights := glue trueStart (fun _ => floor + low + 1) (glue falseStart inTrue inFalse)
  have testing : heights offset = floor + low + 1 :=
    glue_before _ _ (Nat.lt_add_of_pos_right (by decide))
  have whileTrue (position : Nat) (start : trueStart ≤ position)
      (stop : position ≤ trueStart + whenTrue.size) : heights position = inTrue position :=
    (glue_behind _ _ start).trans
      (glue_before _ _ (Nat.lt_of_le_of_lt stop (Nat.lt_add_of_pos_right (by decide))))
  have whileFalse (position : Nat) (start : falseStart ≤ position) :
      heights position = inFalse position := by
    refine (glue_behind _ _ (Nat.le_trans ?_ start)).trans (glue_behind _ _ start)
    omega
  have trueHere := trueHeights.congr trueFits whileTrue
  have falseHere := falseHeights.congr falseFits fun position start _ => whileFalse position start
  have atEnd : heights (falseStart + whenFalse.size) = floor + high :=
    (whileFalse _ (Nat.le_add_right _ _)).trans behindFalse
  have isTrue : heights trueStart = floor + low :=
    (whileTrue _ .refl (Nat.le_add_right _ _)).trans atTrue
  have isFalse : heights falseStart = floor + low := (whileFalse _ .refl).trans atFalse
  have skips : heights (trueStart + whenTrue.size) = floor + high :=
    (whileTrue _ (Nat.le_add_right _ _) .refl).trans behindTrue
  refine ⟨heights, testing, ?_, ?_, ?_⟩
  · rw [← atEnd]
    simp only [Code.size, falseStart, trueStart, Nat.add_assoc]
  · change method.Flows catalog floor heights offset
      ([jumpIfFalse (whenTrue.size + jumpSize)] ++ (whenTrue.instructions
        ++ ([Code.jump whenFalse.size] ++ whenFalse.instructions)))
    refine .append (.jumpIfFalse trueSmall (isTrue ▸ Nat.le_add_right _ _) ?_ ?_)
      (.append trueHere.flows ?_)
    · rw [testing, isTrue]
    · rw [testing, ← Nat.add_assoc, isFalse]
    · rw [whenTrue.totalSize_instructions]
      refine .append (.jump falseSmall (skips ▸ Nat.le_add_right _ _) ?_) falseHere.flows
      exact atEnd.trans skips.symm
  · intro start stop mark member
    rcases List.mem_append.mp member with inside | inside
    · exact trueHere.balanced start stop mark inside
    · exact falseHere.balanced start stop mark inside

/-- A part runs or is skipped, so it has to keep the height. -/
theorem guarded (onTrue : whenTrue.Climbs method catalog floor low low) :
    Climbs (.guarded whenTrue) method catalog floor (low + 1) low := by
  intro ⟨small, fits⟩ offset
  let start := offset + jumpSize
  rcases onTrue fits start with ⟨inTrue, atStart, atEnd, trueHeights⟩
  let heights := glue start (fun _ => floor + low + 1) inTrue
  have testing : heights offset = floor + low + 1 :=
    glue_before _ _ (Nat.lt_add_of_pos_right (by decide))
  have whileTrue (position : Nat) (inside : start ≤ position) :
      heights position = inTrue position := glue_behind _ _ inside
  have trueHere := trueHeights.congr fits fun position inside _ => whileTrue position inside
  have isTrue : heights start = floor + low := (whileTrue _ .refl).trans atStart
  have behind : heights (start + whenTrue.size) = floor + low :=
    (whileTrue _ (Nat.le_add_right _ _)).trans atEnd
  refine ⟨heights, testing, ?_, ?_, trueHere.balanced⟩
  · rw [Code.size, ← Nat.add_assoc, behind]
  · refine .append (.jumpIfFalse small (isTrue ▸ Nat.le_add_right _ _) ?_ ?_) trueHere.flows
    · rw [testing, isTrue]
    · rw [testing, behind]

/-- A body runs as often as its condition leaves a value for. -/
theorem loop {condition body : MarkedCode}
    (test : condition.Climbs method catalog floor low (low + 1))
    (repeated : body.Climbs method catalog floor low low) :
    Climbs (.loop condition body) method catalog floor low low := by
  intro ⟨small, conditionFits, bodyFits⟩ offset
  let tested := offset + condition.size
  let start := tested + jumpSize
  rcases test conditionFits offset with ⟨inCondition, atTest, behindTest, conditionHeights⟩
  rcases repeated bodyFits start with ⟨inBody, atBody, behindBody, bodyHeights⟩
  let heights := glue start inCondition (glue (start + body.size + 1) inBody fun _ => floor + low)
  have whileTesting (position : Nat) (inside : position ≤ tested) :
      heights position = inCondition position :=
    glue_before _ _ (Nat.lt_of_le_of_lt inside (Nat.lt_add_of_pos_right (by decide)))
  have inside (position : Nat) (begun : start ≤ position) (going : position ≤ start + body.size) :
      heights position = inBody position :=
    (glue_behind _ _ begun).trans (glue_before _ _ (Nat.lt_succ_of_le going))
  have conditionHere := conditionHeights.congr conditionFits fun position _ => whileTesting position
  have bodyHere := bodyHeights.congr bodyFits inside
  have atStart : heights offset = floor + low :=
    (whileTesting _ (Nat.le_add_right _ _)).trans atTest
  have isTested : heights tested = floor + low + 1 :=
    (whileTesting _ .refl).trans behindTest
  have entered : heights start = floor + low :=
    (inside _ .refl (Nat.le_add_right _ _)).trans atBody
  have done : heights (start + body.size) = floor + low :=
    (inside _ (Nat.le_add_right _ _) .refl).trans behindBody
  have atEnd : heights (start + body.size + jumpSize) = floor + low := by
    refine (glue_behind _ _ ?_).trans (glue_behind _ _ (Nat.add_le_add_left (by decide) _))
    rw [Nat.add_assoc]
    exact Nat.le_add_right _ _
  refine ⟨heights, atStart, ?_, ?_, ?_⟩
  · rw [← atEnd]
    simp only [Code.size, start, tested, Nat.add_assoc]
  · change method.Flows catalog floor heights offset ((condition.instructions
      ++ ([jumpIfFalse (body.size + jumpSize)] ++ body.instructions)) ++ [_])
    refine .append (.append conditionHere.flows ?_) ?_
    · rw [condition.totalSize_instructions]
      refine .append (.jumpIfFalse ?_ (entered ▸ Nat.le_add_right _ _) ?_ ?_) bodyHere.flows
      · omega
      · rw [isTested, entered]
      · rw [isTested, ← Nat.add_assoc, atEnd]
    · have total : Instruction.totalSize (condition.instructions
          ++ ([jumpIfFalse (body.size + jumpSize)] ++ body.instructions))
          = condition.size + jumpSize + body.size := by
        simp only [Instruction.totalSize_append, Code.totalSize_instructions]
        rw [Nat.add_assoc]
        rfl
      have behind : heights (offset + (condition.size + jumpSize + body.size)) = floor + low := by
        rw [← done]
        simp only [start, tested, Nat.add_assoc]
      rw [total]
      exact .jumpBack small (behind ▸ Nat.le_add_right _ _) (atStart.trans behind.symm)
  · intro start stop mark member
    rcases List.mem_append.mp member with inTest | inBody
    · exact conditionHere.balanced start stop mark inTest
    · exact bodyHere.balanced start stop mark inBody

end Climbs
end MarkedCode
end OpMachine
