import Mathlib.Data.Finset.Card
import OpMachine.Proofs.BaseChains
import OpMachine.Proofs.CompiledMethods

namespace OpMachine

/-!
# Compilations end

Two things are bounded in a compilation: the walk along the bases of a type, and
the nesting of compilations.  Neither bound is ever felt.  Where chains of bases
end they still end after every question that a compilation asks.  And a
declaration is not entered while it is under compilation, so there are no more
nested compilations than declared methods, the root apart.
-/

/-! ## Chains of bases -/

namespace Catalog

variable {catalog later : Catalog}

/-- The chain of a registered type is the same in a catalog with the same types. -/
theorem HasBases.chain_of_registered (hasBases : catalog.HasBases) (laterBases : later.HasBases)
    (same : later.types = catalog.types) {hash : TypeHash} (ends : catalog.Chain hash chain)
    (known : hash ∈ catalog.types) : later.Chain hash chain := by
  have declares {hash : TypeHash} (known : hash ∈ catalog.types) :
      later.declaring? hash = catalog.declaring? hash := by
    obtain ⟨_, registered⟩ := Option.isSome_iff_exists.mp
      (Std.HashMap.mem_iff_isSome_getElem?.mp known)
    rw [hasBases.declaring_of_registered registered,
      laterBases.declaring_of_registered (same ▸ registered)]
  induction ends with
  | unknown absent => exact .unknown ((declares known).trans absent)
  | root isDeclared isRoot => exact .root ((declares known).trans isDeclared) isRoot
  | derived isDeclared isBase _ ih =>
    have baseKnown := hasBases.links_registered ⟨_, isDeclared, isBase⟩
    exact .derived ((declares known).trans isDeclared) isBase (ih baseKnown)

theorem HasBases.ends_asked (hasBases : catalog.HasBases) (ends : ∀ hash, catalog.Ends hash)
    (asked : catalog.Asked later) (hash : TypeHash) : later.Ends hash := by
  have laterBases := hasBases.asked asked
  have same := asked.grows.types
  cases declares : later.declaring? hash with
  | none => exact ⟨[], .unknown declares⟩
  | some declared =>
    cases isBase : declared.1.base with
    | none => exact ⟨[declared], .root declares isBase⟩
    | some base =>
      -- Whatever is closed goes on at a registered type.
      have known := laterBases.links_registered ⟨declared, declares, isBase⟩
      obtain ⟨chain, isChain⟩ := ends base
      exact ⟨declared :: chain, .derived declares isBase
        (hasBases.chain_of_registered laterBases same isChain (same ▸ known))⟩

end Catalog

/-! ## Questions to the catalog -/

namespace EStateM

variable {ε σ α β : Type}

/-- The state that a computation leaves, with an answer or without. -/
def left (action : EStateM ε σ α) (before : σ) : σ :=
  match action before with
  | .ok _ after => after
  | .error _ after => after

/-- A computation moves along a relation, with an answer or without. -/
def Moves (Along : σ -> σ -> Prop) (action : EStateM ε σ α) : Prop :=
  ∀ before, Along before (left action before)

variable {Along : σ -> σ -> Prop}

theorem Moves.bind (ofFirst : Moves Along first) (ofNext : ∀ value, Moves Along (next value))
    (transitive : ∀ first second third, Along first second -> Along second third ->
      Along first third) : Moves Along (first >>= next) := by
  intro before
  have earlier := ofFirst before
  unfold left at earlier ⊢
  cases ran : first before with
  | ok value middle =>
    rw [bind_of_ok ran]
    simp only [ran] at earlier
    exact transitive _ _ _ earlier (ofNext value middle)
  | error =>
    rw [bind_of_error ran]
    simp only [ran] at earlier
    exact earlier

end EStateM

namespace Make

/-- A computation that does nothing to the catalog but ask it. -/
def OnlyAsks {α : Type} (action : Make α) : Prop :=
  EStateM.Moves (fun before after => before.catalog.Asked after.catalog) action

variable {α β : Type}

theorem onlyAsks_pure (value : α) : OnlyAsks (pure value) := fun _ => .nothing

theorem onlyAsks_throw (error : CompilationError) : OnlyAsks (throw error : Make α) :=
  fun _ => .nothing

theorem OnlyAsks.bind {next : α -> Make β} (ofFirst : first.OnlyAsks)
    (ofNext : ∀ value, (next value).OnlyAsks) : OnlyAsks (first >>= next) :=
  EStateM.Moves.bind ofFirst ofNext fun _ _ _ => .trans

theorem onlyAsks_lookup (closes : action.Closes) : OnlyAsks (lookup action) :=
  fun before => closes before.catalog

theorem asks_onlyAsks : Asks @OnlyAsks where
  pure := onlyAsks_pure
  bind := .bind
  throw _ := onlyAsks_throw _
  lookup := onlyAsks_lookup

end Make

namespace Compile

def OnlyAsks {α : Type} (action : Compile α) : Prop :=
  EStateM.Moves (fun before after => before.workspace.catalog.Asked after.workspace.catalog) action

variable {α β : Type}

theorem OnlyAsks.bind (ofFirst : OnlyAsks first) (ofNext : ∀ value, OnlyAsks (next value)) :
    OnlyAsks (first >>= next) :=
  EStateM.Moves.bind ofFirst ofNext fun _ _ _ => .trans

theorem OnlyAsks.of_workspace {action : Compile α}
    (same : ∀ before, (EStateM.left action before).workspace = before.workspace) :
    OnlyAsks action := by
  intro before
  rw [same before]
  exact .nothing

theorem onlyAsks_make (asks : action.OnlyAsks) : OnlyAsks (make action) := by
  intro before
  have asked := asks before.workspace
  rcases before with ⟨emitter, slots, lambdas, callees, implicitReceivers, workspace⟩
  unfold EStateM.left at asked ⊢
  unfold make
  cases ran : action workspace with
  | ok | error =>
    simp only [ran] at asked ⊢
    exact asked

theorem onlyAsks_emit (action : Emit α) : OnlyAsks (emit action) := by
  refine .of_workspace fun before => ?_
  unfold EStateM.left emit
  cases ran : action before.emitter with
  | ok | error => simp only [ran]

theorem onlyAsks_withSlots (action : SlotTable -> Except CompilationError (α × SlotTable)) :
    OnlyAsks (withSlots action) := by
  refine .of_workspace fun before => ?_
  unfold EStateM.left withSlots
  cases ran : action before.slots with
  | ok | error => rfl

theorem onlyAsks_lambdaIndex (session : Session) (symbol : SymbolId) :
    OnlyAsks (lambdaIndex session symbol) := by
  refine .of_workspace fun before => ?_
  unfold EStateM.left lambdaIndex
  have reads : (get : Compile Body) before = .ok before before := rfl
  rw [bind_of_ok reads]
  cases before.lambdas.findIdx? (·.symbol = symbol) with
  | some => rfl
  | none =>
    cases session.lambda? symbol with
    | none => rfl
    | some =>
      by_cases few : before.lambdas.length < 256
      · simp only [if_pos few]
        rfl
      · simp only [if_neg few]
        rfl

theorem onlyAsks_addCallee (method : CompiledMethod) : OnlyAsks (addCallee method) := by
  refine .of_workspace fun before => ?_
  unfold EStateM.left addCallee
  have reads : (get : Compile Body) before = .ok before before := rfl
  rw [bind_of_ok reads]
  by_cases few : before.callees.length < 256
  · simp only [if_pos few]
    rfl
  · simp only [if_neg few]
    rfl

/-- The compilation of a body only asks the catalog if those of the methods that
it calls do. -/
theorem OnlyAsks.of_stepped (callees : ∀ method, (outer.callee method).OnlyAsks)
    (stepped : Stepped outer Known declares action) : OnlyAsks action := by
  induction stepped with
  | pure | throw | body | implicitReceivers => exact fun _ => .nothing
  | bind _ _ ofFirst ofNext => exact .bind ofFirst ofNext
  | lookup closes => exact onlyAsks_make (Make.onlyAsks_lookup closes)
  | emit => exact onlyAsks_emit _
  | parameterSlot | localSlot | freshSlot | declareLocal => exact onlyAsks_withSlots _
  | callee method =>
    exact .bind (onlyAsks_make (callees method)) fun _ => onlyAsks_addCallee _
  | lambdaIndex => exact onlyAsks_lambdaIndex _ _

end Compile

namespace Make

theorem onlyAsks_method (callees : ∀ method, (outer.callee method).OnlyAsks)
    (symbol : MethodSymbol) (hasReceiver : Bool) (operation : Operation) :
    OnlyAsks (method outer symbol hasReceiver operation) := by
  intro before
  let start : Body := { slots := .ofMethod symbol hasReceiver, workspace := before }
  have asked : start.workspace.catalog.Asked (EStateM.left
      (Compile.bodyCode outer symbol.returnsValue operation) start).workspace.catalog :=
    Compile.OnlyAsks.of_stepped callees
      (@Compile.stepped_bodyCode outer (fun _ => True) _ _ fun _ _ => trivial) start
  unfold EStateM.left at asked ⊢
  unfold method
  simp only
  cases ran : Compile.bodyCode outer symbol.returnsValue operation start with
  | ok | error =>
    simp only [ran] at asked ⊢
    exact asked

theorem nests_onlyAsks : Nests @OnlyAsks where
  toAsks := asks_onlyAsks
  number same before := by
    change before.catalog.Asked _
    rw [← same before]
    exact .nothing
  ofExcept result := by
    cases result with
    | ok value => exact onlyAsks_pure value
    | error error => exact onlyAsks_throw error
  method callees _ := onlyAsks_method callees

/-- A compilation leaves a catalog that was asked and nothing else, also when it
fails. -/
theorem onlyAsks_declaration (source : Source) (id : SyntaxId) : OnlyAsks (declaration source id) :=
  asks_onlyAsks.declaration nests_onlyAsks.topLevel source id

theorem asked_declaration {source : Source} {id : SyntaxId}
    (compiles : declaration source id before = .ok function after) :
    before.catalog.Asked after.catalog := by
  have asked := onlyAsks_declaration source id before
  rwa [EStateM.left, compiles] at asked

end Make

/-! ## Nested compilations -/

/-- Every method is stored under the identity of its own symbol. -/
def Source.IsStored (source : Source) : Prop :=
  ∀ (id : SymbolId) (declaration : MethodDeclaration), source.methods[id]? = some declaration ->
    declaration.symbol.id = id

variable {source : Source}

theorem Source.IsStored.add (stored : source.IsStored)
    (declaration : Declaration) : (source.add declaration).IsStored := by
  cases declaration with
  | method method =>
    intro id other found
    change (source.methods.insert method.symbol.id method)[id]? = some other at found
    rcases inserted_or_found found with ⟨same, rfl⟩ | earlier
    · exact same
    · exact stored id other earlier
  | expression | other => exact stored

/-- The declared methods that are not under compilation. -/
def Source.remaining (source : Source) (active : List SymbolId) : Finset SymbolId :=
  source.methods.keys.toFinset \ active.toFinset

theorem Source.card_remaining_le (source : Source) (active : List SymbolId) :
    (source.remaining active).card ≤ source.methods.size := by
  calc (source.remaining active).card
      ≤ source.methods.keys.toFinset.card := Finset.card_le_card Finset.sdiff_subset
    _ ≤ source.methods.keys.length := List.toFinset_card_le _
    _ = source.methods.size := Std.HashMap.length_keys

/-- A declared method that is entered remains no longer. -/
theorem Source.card_remaining_lt {id : SymbolId} (known : id ∈ source.methods) (fresh : id ∉ active) :
    (source.remaining (id :: active)).card < (source.remaining active).card := by
  have member : id ∈ source.remaining active := by
    rw [remaining, Finset.mem_sdiff, List.mem_toFinset, List.mem_toFinset, Std.HashMap.mem_keys]
    exact ⟨known, fresh⟩
  have without : source.remaining (id :: active) = (source.remaining active).erase id := by
    rw [remaining, remaining, List.toFinset_cons, Finset.sdiff_insert]
  rw [without]
  exact Finset.card_erase_lt_of_mem member

namespace Make

variable {source : Source}

theorem nested_of_active (member : symbol.id ∈ active) (levels : Nat) (operation : Operation) :
    nested source levels active symbol operation = cycle symbol := by
  cases levels with
  | zero => rfl
  | succ => rw [nested_succ, if_pos (List.contains_iff_mem.mpr member)]

/-- A nested compilation as it is without a bound on the levels. -/
def entering (callee : List SymbolId -> MethodSymbol -> Make CompiledMethod)
    (active : List SymbolId) (symbol : MethodSymbol) (operation : Operation) :
    Make CompiledFunction :=
  if active.contains symbol.id then cycle symbol
  else topLevel (callee (symbol.id :: active)) symbol operation

section

variable (stored : source.IsStored) {levels more : Nat} {active : List SymbolId}

include stored

theorem callee_congr
    (same : ∀ declaration : MethodDeclaration, declaration.symbol.id ∈ source.methods ->
      nested source levels active declaration.symbol declaration.body
        = nested source more active declaration.symbol declaration.body) :
    callee source levels active = callee source more active := by
  funext method
  unfold callee
  cases found : source.methodBody? method with
  | none => rfl
  | some declaration =>
    have known : declaration.symbol.id ∈ source.methods := by
      rw [stored _ _ found, Std.HashMap.mem_iff_isSome_getElem?]
      exact Option.isSome_iff_exists.mpr ⟨declaration, found⟩
    simp only [same declaration known]

/-- More levels than declared methods remain make no difference to the methods
that a body calls.  The induction is on the levels: a method that is entered
remains no longer, and one that is active fails with any number of levels. -/
theorem callee_eq_of_remaining (enough : (source.remaining active).card ≤ levels)
    (enoughMore : (source.remaining active).card ≤ more) :
    callee source levels active = callee source more active := by
  induction levels generalizing more active with
  | zero =>
    refine callee_congr stored fun declaration known => ?_
    by_cases isActive : declaration.symbol.id ∈ active
    · rw [nested_of_active isActive, nested_of_active isActive]
    · have fewer := Source.card_remaining_lt known isActive
      omega
  | succ levels ih =>
    refine callee_congr stored fun declaration known => ?_
    by_cases isActive : declaration.symbol.id ∈ active
    · rw [nested_of_active isActive, nested_of_active isActive]
    · have fewer := Source.card_remaining_lt known isActive
      cases more with
      | zero => omega
      | succ more =>
        have same : callee source levels (declaration.symbol.id :: active)
            = callee source more (declaration.symbol.id :: active) :=
          ih (by omega) (by omega)
        rw [nested_succ, nested_succ, same]

/-- As many levels as there are declared methods, and one for the root, are as
good as any larger number. -/
theorem nested_eq_of_le (enough : source.methods.size + 1 ≤ levels)
    (active : List SymbolId) (symbol : MethodSymbol) (operation : Operation) :
    nested source levels active symbol operation
      = nested source (source.methods.size + 1) active symbol operation := by
  obtain ⟨more, rfl⟩ := Nat.exists_eq_add_of_le enough
  have atLeast := source.card_remaining_le (symbol.id :: active)
  have same : callee source (source.methods.size + more) (symbol.id :: active)
      = callee source source.methods.size (symbol.id :: active) :=
    callee_eq_of_remaining stored (Nat.le_add_right_of_le atLeast) atLeast
  rw [show source.methods.size + 1 + more = source.methods.size + more + 1 by omega, nested_succ,
    nested_succ, same]

/-- With enough levels a nested compilation is what it is without a bound. -/
theorem nested_eq_entering (enough : source.methods.size + 1 ≤ levels)
    (active : List SymbolId) (symbol : MethodSymbol) (operation : Operation) :
    nested source levels active symbol operation
      = entering (callee source levels) active symbol operation := by
  have atLeast := source.card_remaining_le (symbol.id :: active)
  have same : callee source source.methods.size (symbol.id :: active)
      = callee source levels (symbol.id :: active) :=
    callee_eq_of_remaining stored atLeast (Nat.le_trans atLeast (Nat.le_of_succ_le enough))
  rw [nested_eq_of_le stored enough, nested_succ, same, entering]

end

end Make

end OpMachine
