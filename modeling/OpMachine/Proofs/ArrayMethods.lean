import OpMachine.Proofs.ScalarMethods

namespace OpMachine

/-!
# Methods that work on arrays

A body that makes arrays, reads their elements and assigns to them runs as its
tree is evaluated: with the same result or the same failure, and with the heap
that the evaluation leaves.  The evaluation takes array, indices and value from
the left, each of them once, and accesses the element after that.

The one exception is a compound assignment to an element.  It reads the element
before the value is evaluated, so an index out of range is reported before
anything that the value does.  An evaluation in which the value comes first has
another outcome, as a small method shows.
-/

/-- A call shows the outcome of the evaluation of the body. -/
theorem Make.method_shows (source : Source) (levels : Nat) (active : List SymbolId)
    (session : Session)
    (compiles : method ⟨session, callee source levels active⟩ symbol hasReceiver operation
      before = .ok compiled after)
    (computes : operation.ComputesStatement True symbol.parameters.length fun _ => False)
    (limit : 1 ≤ host.maximumDepth) (receiver : Option Value)
    (count : arguments.length = symbol.parameters.length)
    (shared : ∀ value, value ∈ arguments -> value.isShared = true) (shares : heap.SharesItems)
    (rounds : Nat) :
    Machine.Shows host { control := .call (.method compiled receiver arguments), heap } rounds
      ((symbol.evaluator before.catalog rounds noCalls).outcome .readFirst operation arguments
        heap) := by
  obtain ⟨_, finished, _, encodes, _⟩ :=
    method_ok (conservative_callee source levels active session) compiles
  have understands : Situation.Understands ⟨host, [], 1, heap, compiled, finished.slots⟩
      ⟨session, callee source levels active⟩ before.catalog finished (fun _ => False)
      (symbol.evaluator before.catalog rounds noCalls) :=
    { pool := encodes.pool
      table := rfl
      separate := encodes.separate
      typeOf := rfl
      calls := fun _ _ _ _ _ _ impossible => impossible.elim }
  have leads := encodes.leads understands rfl (by rw [eq_true shares]; exact computes) limit
    receiver count shared
  unfold Evaluator.outcome
  generalize Evaluator.performBody _ _ _ _ = outcome at leads
  cases outcome with
  | ok =>
    obtain ⟨_, reaches, _, rfl⟩ := leads
    exact reaches.ends (.of_step rfl)
  | error halt =>
    cases halt with
    | failed => exact leads.ends (.of_step rfl)
    | unfinished | outside => exact leads

/-- A body with arrays that compiles runs as its tree is evaluated.  A call of the
compiled method ends with a value or a failure and with a heap exactly when the
evaluation of the tree, on the same arguments and the same heap, has this value
or this failure and leaves this heap for some number of rounds. -/
theorem Make.arrayMethod_ends_iff (source : Source) (levels : Nat) (active : List SymbolId)
    (session : Session) {symbol : MethodSymbol} {hasReceiver : Bool} {operation : Operation}
    {before after : Workspace} {compiled : CompiledMethod}
    (compiles : Make.method ⟨session, Make.callee source levels active⟩ symbol hasReceiver operation
      before = .ok compiled after)
    (computes : operation.ComputesStatement True symbol.parameters.length fun _ => False)
    {host : Host} (limit : 1 ≤ host.maximumDepth) (receiver : Option Value)
    {arguments : List Value} (count : arguments.length = symbol.parameters.length)
    (shared : ∀ value, value ∈ arguments -> value.isShared = true) {heap : Heap}
    (shares : heap.SharesItems) (ending : Ending) :
    Machine.Ends host { control := .call (.method compiled receiver arguments), heap } ending
      ↔ ∃ rounds,
        (symbol.evaluator before.catalog rounds noCalls).outcome .readFirst operation arguments heap
          = (ending.result.mapError Halt.failed, ending.heap) :=
  Machine.ends_iff_of_shows
    (Make.method_shows source levels active session compiles computes limit receiver count shared
      shares) ending

namespace Update

/-- A method with an array and two integers as parameters. -/
def symbol : MethodSymbol :=
  ({ id := ⟨1⟩, name := "Update", containingType := .simple "T", returnType := .int }
    : MethodSymbol).addParameter "a" (.array .int 1) |>.addParameter "i" .int
    |>.addParameter "n" .int

def array : Operation :=
  .parameter { type := some (.array .int 1) } ⟨"a", 0, .array .int 1, ⟨1⟩⟩

def index : Operation := .parameter { type := some .int } ⟨"i", 1, .int, ⟨1⟩⟩

def number : Operation := .parameter { type := some .int } ⟨"n", 2, .int, ⟨1⟩⟩

def element (place : Operation) : Operation := .element { type := some .int } array [place]

/-- `return a[place] += value;` -/
def body (place value : Operation) : Operation :=
  .returnStatement {}
    (some (.compoundAssignment { type := some .int } .add (element place) value))

/-- `i = n` -/
def moving : Operation := .assignment { type := some .int } index number

/-- `a[n] = i` -/
def storing : Operation := .assignment { type := some .int } (element number) index

/-- `n / n` -/
def dividing : Operation := .binary { type := some .int } .divide number number

def compile (operation : Operation) : Make CompiledMethod :=
  Make.method ⟨{ number := 1 }, Make.callee {} 0 []⟩ symbol false operation

def compiles (operation : Operation) : Bool :=
  match compile operation { catalog := {} } with
  | .ok _ _ => true
  | .error _ _ => false

theorem exists_compiled (runs : compiles operation = true) :
    ∃ compiled after, compile operation { catalog := {} } = .ok compiled after := by
  unfold compiles at runs
  cases outcome : compile operation { catalog := {} } with
  | ok compiled after => exact ⟨compiled, after, rfl⟩
  | error =>
    rw [outcome] at runs
    cases runs

/-- A heap with one array of integers. -/
def heap (items : Array Value) : Heap := { arrays := #[⟨.int, [items.size], items⟩] }

abbrev Computes (operation : Operation) : Prop :=
  operation.ComputesOperand True 3 fun _ => False

theorem computes_index : Computes index := ⟨rfl, rfl, by decide⟩

theorem computes_number : Computes number := ⟨rfl, rfl, by decide⟩

theorem computes_moving : Computes moving := ⟨rfl, rfl, computes_index.2.2, computes_number⟩

theorem computes_storing : Computes storing :=
  ⟨rfl, rfl, ⟨trivial, ⟨rfl, rfl, by decide⟩, computes_number, trivial⟩, computes_index⟩

theorem computes_dividing : Computes dividing := ⟨rfl, rfl, computes_number, computes_number⟩

theorem computes_body (onPlace : Computes place) (onValue : Computes value) :
    (body place value).ComputesStatement True 3 fun _ => False :=
  ⟨rfl, rfl, ⟨trivial, ⟨rfl, rfl, by decide⟩, onPlace, trivial⟩, onValue⟩

theorem sharesItems_heap (shared : ∀ item, item ∈ items -> item.isShared = true) :
    (heap items).SharesItems :=
  fun _ member => Array.mem_singleton.mp member ▸ shared

end Update

/-- The element is found by an index that is assigned first, and it is read before
the value, which stores in the same element, is evaluated. -/
theorem update_ends : ∃ compiled after,
    Update.compile (Update.body Update.moving Update.storing) { catalog := {} }
        = .ok compiled after
      ∧ Machine.Ends { catalog := {}, maximumDepth := 1 }
          { control := .call (.method compiled none [.array ⟨0⟩, .int 0, .int 1])
            heap := Update.heap #[.int 3, .int 4] }
          ⟨.ok (.int 5), Update.heap #[.int 3, .int 5]⟩ := by
  obtain ⟨compiled, after, compiles⟩ : ∃ compiled after,
      Update.compile (Update.body Update.moving Update.storing) { catalog := {} }
        = .ok compiled after := Update.exists_compiled (by decide +kernel)
  refine ⟨compiled, after, compiles, ?_⟩
  have computes := Update.computes_body Update.computes_moving Update.computes_storing
  exact (Make.arrayMethod_ends_iff {} 0 [] _ compiles computes (Nat.le_refl 1) none rfl (by decide)
    (Update.sharesItems_heap (by decide)) _).mpr ⟨0, rfl⟩

/-- An element that is not there is reported before the value is evaluated, and the
failure of the value is not.  An evaluation in which the value comes first has
the other failure. -/
theorem update_fails_before_value : ∃ compiled after,
    Update.compile (Update.body Update.index Update.dividing) { catalog := {} }
        = .ok compiled after
      ∧ (Update.body Update.index Update.dividing).ComputesStatement True 3 (fun _ => False)
      ∧ (Update.heap #[.int 0]).SharesItems
      ∧ Machine.Ends { catalog := {}, maximumDepth := 1 }
          { control := .call (.method compiled none [.array ⟨0⟩, .int 1, .int 0])
            heap := Update.heap #[.int 0] }
          ⟨.error (.indexOutOfRange 1 1), Update.heap #[.int 0]⟩
      ∧ ∀ rounds, (Update.symbol.evaluator {} rounds noCalls).outcome .valueFirst
          (Update.body Update.index Update.dividing) [.array ⟨0⟩, .int 1, .int 0]
          (Update.heap #[.int 0]) = (.error (.failed .divisionByZero), Update.heap #[.int 0]) := by
  obtain ⟨compiled, after, compiles⟩ : ∃ compiled after,
      Update.compile (Update.body Update.index Update.dividing) { catalog := {} }
        = .ok compiled after := Update.exists_compiled (by decide +kernel)
  have computes := Update.computes_body Update.computes_index Update.computes_dividing
  have shares : (Update.heap #[.int 0]).SharesItems := Update.sharesItems_heap (by decide)
  refine ⟨compiled, after, compiles, computes, shares, ?_, fun _ => rfl⟩
  change Machine.Shows _ _ 0 ((Update.symbol.evaluator {} 0 noCalls).outcome .readFirst
    (Update.body Update.index Update.dividing) [.array ⟨0⟩, .int 1, .int 0]
    (Update.heap #[.int 0]))
  exact Make.method_shows {} 0 [] _ compiles computes (Nat.le_refl 1) none rfl (by decide) shares 0

end OpMachine
