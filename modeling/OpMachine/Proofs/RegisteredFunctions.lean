import Mathlib.Data.Finset.Card
import OpMachine.Proofs.CompiledMethods

namespace OpMachine

/-!
# Registered functions

An anonymous function is compiled into a unit that is opened for it and sealed
at once, and is then registered in the session under its symbol.  A run through
functions skips those whose symbol is registered already.
-/

/-! ## Units of a session -/

namespace Session

/-- A session while the last of its units is being filled. -/
def filling (session : Session) (draft : UnitDraft) : Session :=
  { session with units := session.units.push draft, current := some session.units.size }

/-- A session with one more unit, which is not the current one. -/
def withUnit (session : Session) (draft : UnitDraft) : Session :=
  { session with units := session.units.push draft }

section

variable (session : Session) {draft : UnitDraft} (isOpen : draft.isSealed = false)

theorem setDraft_filling (draft changed : UnitDraft) :
    (session.filling draft).setDraft session.units.size changed = session.filling changed := by
  unfold setDraft filling
  congr 1
  apply Array.ext'
  simp

include isOpen

theorem draft_filling : (session.filling draft).draft session.units.size = .ok draft := by
  simp [Session.draft, filling, isOpen]

theorem addMethod_filling (method : CompiledMethod) :
    (session.filling draft).addMethod session.units.size method
      = .ok (session.filling { draft with methods := draft.methods ++ [method] }) := by
  unfold addMethod
  rw [session.draft_filling isOpen]
  exact congrArg Except.ok (session.setDraft_filling _ _)

theorem addDelegate_filling : (session.filling draft).addDelegate session.units.size
      = .ok (session.filling { draft with hasDelegate := true }) := by
  unfold addDelegate
  rw [session.draft_filling isOpen]
  exact congrArg Except.ok (session.setDraft_filling _ _)

/-- When the last unit is sealed, the cursor goes back to where it was. -/
theorem sealUnit_filling (inside : draft.parent = session.current) :
    (session.filling draft).sealUnit session.units.size
      = .ok (⟨draft.id, draft.name, draft.methods, draft.hasDelegate⟩,
        session.withUnit { draft with isSealed := true }) := by
  unfold sealUnit
  rw [session.draft_filling isOpen]
  simp only [bind, Except.bind, setDraft_filling, inside]
  simp [filling, withUnit, pure, Except.pure]

end

/-- A function whose code is alone in a sealed unit of a session.  The unit has
an instance, on which the function is called, and a cell. -/
structure Encloses (session : Session) (lambda : CompiledLambda) : Prop where
  methods : lambda.unit.methods = [lambda.method]
  hasDelegate : lambda.unit.hasDelegate = true
  cell : lambda.cell = .unit lambda.unit.id
  receiver : lambda.receiver = .object (.closure lambda.unit.id)
  isSealed : ∃ draft, draft ∈ session.units ∧ draft.isSealed = true
    ∧ draft.id = lambda.unit.id ∧ draft.name = lambda.unit.name
    ∧ draft.methods = lambda.unit.methods ∧ draft.hasDelegate = true

end Session

/-! ## One function -/

namespace Make

variable {callee : MethodSymbol -> Make CompiledMethod} {session next : Session}
  {node : FunctionNode} {before after : Workspace} {made : CompiledLambda}

/-- The numbering after one more unit. -/
def opening (workspace : Workspace) : Workspace :=
  { workspace with numbering := { workspace.numbering with units := workspace.numbering.units + 1 } }

/-- The draft of a unit when it is opened. -/
def freshDraft (session : Session) (workspace : Workspace) (name : String) : UnitDraft where
  id := workspace.numbering.units + 1
  name := "DynEmit.S" ++ toString session.number ++ ".U" ++ toString session.units.size ++ "." ++ name
  parent := session.current

def enclosed (draft : UnitDraft) (symbol : SymbolId) (method : CompiledMethod)
    (type : TypeHash × Signature) : CompiledLambda where
  symbol
  unit := ⟨draft.id, draft.name, [method], true⟩
  method
  delegateType := type.1
  signature := type.2
  cell := .unit draft.id

/-- A function is registered if it has a type and its body compiles. -/
theorem lambda_run {type : TypeHash × Signature}
    (typed : functionType node.symbol (opening before) = .ok type started)
    (compiling : method ⟨session.filling (freshDraft session before node.symbol.name), callee⟩
      node.symbol true node.body started = .ok compiled after) :
    lambda callee session node before = .ok
      ((session.withUnit { freshDraft session before node.symbol.name with
          methods := [compiled], hasDelegate := true, isSealed := true }).register
        (enclosed (freshDraft session before node.symbol.name) node.symbol.id compiled type))
      after := by
  refine (bind_of_ok typed).trans ((bind_of_ok compiling).trans ?_)
  have ofOk {α β : Type} {result : Except CompilationError α} {value : α} {next : α -> Make β}
      (isOk : result = .ok value) : (ofExcept result >>= next) after = next value after := by
    rw [isOk]
    rfl
  refine (ofOk (session.addMethod_filling rfl compiled)).trans ?_
  refine (ofOk (session.addDelegate_filling rfl)).trans ?_
  exact (ofOk (session.sealUnit_filling rfl rfl)).trans rfl

/-- What is known of a function that was compiled and registered. -/
structure Registered (callee : MethodSymbol -> Make CompiledMethod) (session : Session)
    (node : FunctionNode) (before : Workspace) (next : Session) (after : Workspace)
    (made : CompiledLambda) : Prop where
  symbol : made.symbol = node.symbol.id
  number : made.unit.id = before.numbering.units + 1
  encloses : next.Encloses made
  current : next.current = session.current
  units : ∃ draft, next.units = session.units.push draft
  lambdas : next.lambdas = session.lambdas.insert node.symbol.id made
  /-- The body is compiled when the functions in the session are as before. -/
  compiles : ∃ opened : Session, ∃ started : Workspace, opened.lambdas = session.lambdas
      ∧ functionType node.symbol (opening before) = .ok (made.delegateType, made.signature) started
      ∧ method ⟨opened, callee⟩ node.symbol true node.body started = .ok made.method after

theorem registered_of_lambda (runs : lambda callee session node before = .ok next after) :
    ∃ made, Registered callee session node before next after made := by
  let draft := freshDraft session before node.symbol.name
  obtain ⟨⟨_, _⟩, _, isOpened, parts⟩ := ok_of_bind runs
  obtain ⟨type, started, typed, parts⟩ := ok_of_bind parts
  obtain ⟨compiled, _, compiling, parts⟩ := ok_of_bind parts
  cases isOpened
  cases runs.symm.trans (lambda_run typed compiling)
  exact ⟨enclosed draft node.symbol.id compiled type,
    { symbol := rfl, number := rfl, current := rfl, units := ⟨_, rfl⟩, lambdas := rfl
      encloses := ⟨rfl, rfl, rfl, rfl, _, Array.mem_push_self, rfl, rfl, rfl, rfl, rfl⟩
      compiles := ⟨session.filling draft, started, rfl, typed, compiling⟩ }⟩

theorem Registered.grows (registered : Registered callee session node before next after made)
    (conservative : ∀ symbol, (callee symbol).Grows) : before.catalog.Grows after.catalog := by
  obtain ⟨opened, _, _, typed, compiles⟩ := registered.compiles
  have surrounded : Surroundings.Conservative ⟨opened, callee⟩ := conservative
  exact (asks_grows.functionType node.symbol (opening before) _ _ typed).trans
    (grows_method surrounded _ _ _ _ _ _ compiles)

/-- A function is known under its symbol afterwards, and others as before. -/
theorem Registered.lambda?_eq
    (registered : Registered callee session node before next after made) (id : SymbolId) :
    next.lambda? id = if node.symbol.id = id then some made else session.lambda? id := by
  rw [Session.lambda?, registered.lambdas, Std.HashMap.getElem?_insert]
  simp only [beq_iff_eq]
  rfl

end Make

/-! ## All functions of a body -/

namespace Make

variable {callee : MethodSymbol -> Make CompiledMethod} {nodes : List FunctionNode}
  {session : Session}

/-- A run through functions that succeeds: each is skipped when its symbol is
registered, and is compiled otherwise.  The number counts those compiled. -/
inductive Registers (callee : MethodSymbol -> Make CompiledMethod) :
    Session -> Workspace -> List FunctionNode -> Session -> Nat -> Workspace -> Prop
  | done {session : Session} {workspace : Workspace} :
      Registers callee session workspace [] session 0 workspace
  | skipped {session next : Session} {node : FunctionNode} {rest : List FunctionNode} {count : Nat}
      {before after : Workspace} (isKnown : (session.lambda? node.symbol.id).isSome = true)
      (later : Registers callee session before rest next count after) :
      Registers callee session before (node :: rest) next count after
  | compiled {session middle next : Session} {node : FunctionNode} {rest : List FunctionNode}
      {count : Nat} {before between after : Workspace} {made : CompiledLambda}
      (isNew : session.lambda? node.symbol.id = none)
      (registered : Registered callee session node before middle between made)
      (later : Registers callee middle between rest next count after) :
      Registers callee session before (node :: rest) next (count + 1) after

theorem registers_of_lambdas
    (runs : lambdas callee session nodes before = .ok (next, count) after) :
    Registers callee session before nodes next count after := by
  induction nodes generalizing session before count after with
  | nil =>
    cases runs
    exact .done
  | cons node _ ih =>
    rw [lambdas] at runs
    by_cases isKnown : (session.lambda? node.symbol.id).isSome = true
    · rw [if_pos isKnown] at runs
      exact .skipped isKnown (ih runs)
    · rw [if_neg isKnown] at runs
      obtain ⟨_, _, compiling, runs⟩ := ok_of_bind runs
      obtain ⟨⟨last, fewer⟩, finished, remaining, given⟩ := ok_of_bind runs
      cases given
      obtain ⟨_, registered⟩ := registered_of_lambda compiling
      exact .compiled (Option.not_isSome_iff_eq_none.mp isKnown) registered (ih remaining)

/-- The symbols that a session does not know, each counted once. -/
def unregistered (session : Session) (nodes : List FunctionNode) : Finset SymbolId :=
  (nodes.map (·.symbol.id)).toFinset.filter fun id => session.lambda? id = none

theorem mem_unregistered {id : SymbolId} :
    id ∈ unregistered session operation.functions ↔ session.lambda? id = none
      ∧ ∃ info symbol body, symbol.id = id
        ∧ Operation.anonymousFunction info symbol body ∈ operation :: operation.descendants := by
  rw [unregistered, Finset.mem_filter, List.mem_toFinset, List.mem_map, and_comm]
  apply and_congr_right
  intro _
  constructor
  · rintro ⟨node, member, isId⟩
    obtain ⟨info, inTree⟩ := Operation.mem_functions.mp member
    exact ⟨info, node.symbol, node.body, isId, inTree⟩
  · rintro ⟨info, symbol, body, isId, inTree⟩
    exact ⟨⟨symbol, body⟩, Operation.mem_functions.mpr ⟨info, inTree⟩, isId⟩

namespace Registers

variable {session next : Session} {nodes : List FunctionNode} {count : Nat}
  {before after : Workspace} {id : SymbolId} {node : FunctionNode}

variable (registers : Registers callee session before nodes next count after)

include registers

theorem keeps {lambda : CompiledLambda} (found : session.lambda? id = some lambda) :
    next.lambda? id = some lambda := by
  induction registers with
  | done => exact found
  | skipped _ _ ih => exact ih found
  | compiled isNew registered _ ih =>
    apply ih
    rw [registered.lambda?_eq, if_neg, found]
    rintro rfl
    cases isNew.symm.trans found

theorem isSome (member : node ∈ nodes) : (next.lambda? node.symbol.id).isSome = true := by
  induction registers with
  | done => exact nomatch member
  | skipped isKnown later ih =>
    rcases List.mem_cons.mp member with rfl | isLater
    · obtain ⟨lambda, found⟩ := Option.isSome_iff_exists.mp isKnown
      rw [later.keeps found]
      rfl
    · exact ih isLater
  | compiled _ registered later ih =>
    rcases List.mem_cons.mp member with rfl | isLater
    · have isMade := registered.lambda?_eq node.symbol.id
      rw [if_pos rfl] at isMade
      rw [later.keeps isMade]
      rfl
    · exact ih isLater

theorem current : next.current = session.current := by
  induction registers with
  | done => rfl
  | skipped _ _ ih => exact ih
  | compiled _ registered _ ih => exact ih.trans registered.current

theorem units (member : draft ∈ session.units) : draft ∈ next.units := by
  induction registers with
  | done => exact member
  | skipped _ _ ih => exact ih member
  | compiled _ registered _ ih =>
    obtain ⟨_, isPushed⟩ := registered.units
    apply ih
    rw [isPushed]
    exact Array.mem_push_of_mem _ member

theorem encloses
    {lambda : CompiledLambda} (alone : session.Encloses lambda) : next.Encloses lambda := by
  obtain ⟨draft, member, rest⟩ := alone.isSealed
  exact { alone with isSealed := ⟨draft, registers.units member, rest⟩ }

/-- A function that was not registered before has a unit of its own. -/
theorem known_or_encloses {lambda : CompiledLambda} (found : next.lambda? id = some lambda) :
    session.lambda? id = some lambda ∨ lambda.symbol = id ∧ next.Encloses lambda := by
  induction registers with
  | done => exact .inl found
  | skipped _ _ ih => exact ih found
  | compiled _ registered later ih =>
    rcases ih found with isKnown | alone
    · rw [registered.lambda?_eq] at isKnown
      split at isKnown
      · rename_i same
        cases isKnown
        exact .inr ⟨registered.symbol.trans same, later.encloses registered.encloses⟩
      · exact .inl isKnown
    · exact .inr alone

theorem grows
    (conservative : ∀ symbol, (callee symbol).Grows) : before.catalog.Grows after.catalog := by
  induction registers with
  | done => exact .refl _
  | skipped _ _ ih => exact ih
  | compiled _ registered _ ih => exact (registered.grows conservative).trans ih

/-- Of the functions with a symbol that is not registered the first is compiled. -/
theorem first_compiles (conservative : ∀ symbol, (callee symbol).Grows)
    (absent : session.lambda? node.symbol.id = none)
    (isFirst : nodes.find? (fun other => decide (other.symbol.id = node.symbol.id)) = some node) :
    ∃ opened started ended made, before.catalog.Grows started.catalog
        ∧ method ⟨opened, callee⟩ node.symbol true node.body started = .ok made ended
        ∧ ended.catalog.Grows after.catalog := by
  induction registers with
  | done => cases isFirst
  | @skipped _ _ head _ _ _ _ isKnown _ ih =>
    rw [List.find?_cons] at isFirst
    by_cases same : head.symbol.id = node.symbol.id
    · rw [same, absent] at isKnown
      cases isKnown
    · rw [decide_eq_false same] at isFirst
      exact ih absent isFirst
  | @compiled _ _ _ head _ _ _ _ _ _ _ registered later ih =>
    rw [List.find?_cons] at isFirst
    by_cases same : head.symbol.id = node.symbol.id
    · rw [decide_eq_true same] at isFirst
      cases isFirst
      obtain ⟨opened, started, _, typed, compiles⟩ := registered.compiles
      have typing := asks_grows.functionType node.symbol (opening _) _ _ typed
      exact ⟨opened, started, _, _, typing, compiles, later.grows conservative⟩
    · rw [decide_eq_false same] at isFirst
      have stillAbsent := registered.lambda?_eq node.symbol.id
      rw [if_neg same, absent] at stillAbsent
      obtain ⟨opened, started, ended, made, begun, compiles, finishes⟩ :=
        ih stillAbsent isFirst
      exact ⟨opened, started, ended, made, (registered.grows conservative).trans begun, compiles,
        finishes⟩

theorem count_eq : count = (unregistered session nodes).card := by
  induction registers with
  | done => rfl
  | @skipped session _ node rest _ _ _ isKnown _ ih =>
    have same : unregistered session (node :: rest) = unregistered session rest := by
      unfold unregistered
      rw [List.map_cons, List.toFinset_cons, Finset.filter_insert, if_neg]
      intro absent
      rw [absent] at isKnown
      cases isKnown
    rw [same]
    exact ih
  | @compiled session middle _ node rest _ _ _ _ _ isNew registered _ ih =>
      have fewer : unregistered session (node :: rest)
          = insert node.symbol.id (unregistered middle rest) := by
        ext id
        simp only [unregistered, Finset.mem_filter, Finset.mem_insert, List.mem_toFinset,
          List.map_cons, List.mem_cons, registered.lambda?_eq]
        by_cases same : node.symbol.id = id
        · subst same
          simp [isNew]
        · simp [same, Ne.symm same]
      have absent : node.symbol.id ∉ unregistered middle rest := by
        simp [unregistered, registered.lambda?_eq]
      rw [fewer, Finset.card_insert_of_notMem absent, ih]

end Registers

theorem lambdas_of_registered
    (isKnown : ∀ node, node ∈ nodes -> (session.lambda? node.symbol.id).isSome = true) :
    lambdas callee session nodes = pure (session, 0) := by
  induction nodes with
  | nil => rfl
  | cons node _ ih =>
    rw [lambdas, if_pos (isKnown node (.head _))]
    exact ih fun other member => isKnown other (.tail _ member)

end Make
end OpMachine
