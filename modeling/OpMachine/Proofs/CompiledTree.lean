import OpMachine.Proofs.RegisteredFunctions

namespace OpMachine

/-!
# Everything that a compilation makes

A compiled method holds the methods that it calls and the anonymous functions
that it loads, and these hold others in turn.  Each of them was made of a body in
the source.  `Source.Makes` walks through all of them and keeps, for each, the
body it was made of and the declared methods that were under compilation then.
-/

/-- The bodies that a compilation may come to, each with the symbol it belongs
to: those of declared methods, standalone expressions, and the anonymous
functions inside any of them. -/
inductive Source.HasBody (source : Source) : MethodSymbol -> Operation -> Prop
  | declared {id : SyntaxId} (found : source.declaration? id = some (.method declaration)) :
      HasBody source declaration.symbol declaration.body
  | called (found : source.methodBody? symbol = some declaration) :
      HasBody source declaration.symbol declaration.body
  | expression {id : SyntaxId} (found : source.declaration? id = some (.expression operation)) :
      HasBody source (Make.expressionSymbol operation) operation
  | function (outer : HasBody source symbol operation) (member : node ∈ operation.functions) :
      HasBody source node.symbol node.body

/-- A body of the source as a compilation comes to it. -/
structure Site where
  symbol : MethodSymbol
  operation : Operation
  /-- The declarations under compilation, the innermost one first. -/
  active : List SymbolId
  /-- The anonymous functions of the innermost declaration. -/
  functions : List FunctionNode
  /-- The same functions as they were compiled, by their symbol. -/
  compiled : SymbolId -> Option CompiledLambda

namespace Site

/-- The body of a declaration, which is not under compilation already. -/
structure Enters (site : Site) (active : List SymbolId) (symbol : MethodSymbol)
    (operation : Operation) : Prop where
  isSymbol : site.symbol = symbol
  isOperation : site.operation = operation
  fresh : symbol.id ∉ active
  isActive : site.active = symbol.id :: active
  functions : site.functions = operation.functions

/-- The body of a declared method that is called from another body. -/
def Calls (source : Source) (site called : Site) : Prop :=
  ∃ name declaration, source.methodBody? name = some declaration
    ∧ called.Enters site.active declaration.symbol declaration.body

/-- The body of an anonymous function of the declaration at hand. -/
def inner (site : Site) (node : FunctionNode) : Site :=
  { site with symbol := node.symbol, operation := node.body }

/-- A function that the code of a body may load.  It was compiled once for the
declaration, into a unit of its own. -/
structure Loads (site : Site) (node : FunctionNode) (lambda : CompiledLambda) : Prop where
  member : node ∈ site.functions
  symbol : lambda.symbol = node.symbol.id
  isCompiled : site.compiled lambda.symbol = some lambda
  hasReceiver : lambda.method.hasReceiver = true
  methods : lambda.unit.methods = [lambda.method]
  cell : lambda.cell = .unit lambda.unit.id
  receiver : lambda.receiver = .object (.closure lambda.unit.id)

end Site

/-- Something holds of every method that a compilation makes, and of the body
that it was made of. -/
inductive Source.Makes (source : Source) (Holds : Site -> CompiledMethod -> Prop) :
    Site -> CompiledMethod -> Prop
  | intro (here : Holds site method) (called : CompiledMethod -> Site)
      (loaded : CompiledLambda -> FunctionNode)
      (calls : ∀ callee, callee ∈ method.callees -> site.Calls source (called callee))
      (loads : ∀ lambda, lambda ∈ method.lambdas -> site.Loads (loaded lambda) lambda)
      (callees : ∀ callee, callee ∈ method.callees -> Makes source Holds (called callee) callee)
      (lambdas : ∀ lambda, lambda ∈ method.lambdas ->
        Makes source Holds (site.inner (loaded lambda)) lambda.method) :
      Makes source Holds site method

namespace Source.Makes

variable {source : Source} {Holds : Site -> CompiledMethod -> Prop} {site : Site}
  {method : CompiledMethod}

theorem of_parts (here : Holds site method)
    (callees : ∀ callee, callee ∈ method.callees -> ∃ called,
      site.Calls source called ∧ source.Makes Holds called callee)
    (lambdas : ∀ lambda, lambda ∈ method.lambdas -> ∃ node,
      site.Loads node lambda ∧ source.Makes Holds (site.inner node) lambda.method) :
    source.Makes Holds site method := by
  classical
  have someSite : Nonempty Site := ⟨site⟩
  have someNode : Nonempty FunctionNode := ⟨⟨site.symbol, site.operation⟩⟩
  choose! called calls made using callees
  choose! loaded loads inside using lambdas
  exact .intro here called loaded calls loads made inside

variable (makes : source.Makes Holds site method)

include makes

theorem mono (implies : ∀ site method, Holds site method -> Others site method) :
    source.Makes Others site method := by
  induction makes with
  | intro here called loaded calls loads _ _ calleesHave lambdasHave =>
    exact .intro (implies _ _ here) called loaded calls loads calleesHave lambdasHave

theorem here : Holds site method := by
  cases makes with
  | intro here => exact here

theorem lambda {lambda : CompiledLambda}
    (member : lambda ∈ method.lambdas) : ∃ node,
      site.Loads node lambda ∧ source.Makes Holds (site.inner node) lambda.method := by
  cases makes with
  | intro _ _ _ _ loads _ lambdas => exact ⟨_, loads _ member, lambdas _ member⟩

end Source.Makes

namespace Make

section

variable {source : Source} {origin catalog : Catalog} {Holds : Site -> CompiledMethod -> Prop}
  (holds : ∀ {site : Site} {compiled : CompiledMethod} {session : Session} {levels : Nat}
    {hasReceiver : Bool} {before after : Workspace},
    source.HasBody site.symbol site.operation -> origin.Grows before.catalog ->
    after.catalog.Grows catalog ->
    method ⟨session, callee source levels site.active⟩ site.symbol hasReceiver site.operation before
      = .ok compiled after -> Holds site compiled) {session : Session} {levels : Nat} {site : Site}
  {before after : Workspace}

/-- The methods that a body calls are as they should be. -/
def CalleesMade (source : Source) (origin catalog : Catalog)
    (Holds : Site -> CompiledMethod -> Prop) (levels : Nat) (site : Site) : Prop :=
  ∀ {name : MethodSymbol} {before after : Workspace} {compiled : CompiledMethod},
    callee source levels site.active name before = .ok compiled after ->
      origin.Grows before.catalog -> after.catalog.Grows catalog -> ∃ called,
        site.Calls source called ∧ source.Makes Holds called compiled

/-- The functions of a session are as they should be. -/
def LambdasMade (source : Source) (Holds : Site -> CompiledMethod -> Prop) (session : Session)
    (site : Site) : Prop :=
  ∀ id lambda, session.lambda? id = some lambda -> ∃ node,
    site.Loads node lambda ∧ source.Makes Holds (site.inner node) lambda.method

include holds

private theorem makes_method {hasReceiver : Bool} {compiled : CompiledMethod}
    (called : CalleesMade source origin catalog Holds levels site)
    (loaded : LambdasMade source Holds session site)
    (body : source.HasBody site.symbol site.operation) (begun : origin.Grows before.catalog)
    (compiles : method ⟨session, callee source levels site.active⟩ site.symbol hasReceiver
      site.operation before = .ok compiled after)
    (grown : after.catalog.Grows catalog) : source.Makes Holds site compiled := by
  obtain ⟨_, _, _, encodes, rfl⟩ :=
    method_ok (conservative_callee source levels site.active session) compiles
  refine .of_parts (holds body begun grown compiles) ?_ ?_
  · intro other member
    rw [encodes.callees] at member
    obtain ⟨_, _, _, made, started, finishes⟩ := encodes.sound.callees other member
    exact called made (begun.trans started) (finishes.trans grown)
  · intro lambda member
    rw [encodes.lambdas] at member
    obtain ⟨id, found⟩ := encodes.sound.lambdas lambda member
    exact loaded id lambda found

/-- The functions of a declaration compiled one after the other.  The induction
is on the run through them; what is registered last is what the site has. -/
private theorem makes_lambdas (called : CalleesMade source origin catalog Holds levels site)
    {next : Session} {nodes : List FunctionNode} {count : Nat}
    (registers : Registers (callee source levels site.active) session before nodes next count after)
    (bodies : ∀ node, node ∈ nodes -> node ∈ site.functions
      ∧ source.HasBody node.symbol node.body)
    (isCompiled : ∀ id lambda, next.lambda? id = some lambda -> site.compiled id = some lambda)
    (loaded : LambdasMade source Holds session site) (begun : origin.Grows before.catalog)
    (grown : after.catalog.Grows catalog) : LambdasMade source Holds next site := by
  induction registers with
  | done => exact loaded
  | skipped _ _ ih =>
    exact ih (fun node member => bodies node (.tail _ member))
      isCompiled loaded begun grown
  | @compiled _ _ _ node _ _ before _ _ made _ registered later ih =>
      have conservative := grows_callee source levels site.active
      obtain ⟨opened, started, sameLambdas, typed, compiles⟩ := registered.compiles
      have typing : before.catalog.Grows started.catalog :=
        asks_grows.functionType node.symbol (opening before) _ _ typed
      obtain ⟨inFunctions, body⟩ := bodies node (.head _)
      have loadedInside : LambdasMade source Holds opened (site.inner node) := by
        intro id lambda found
        rw [Session.lambda?, sameLambdas] at found
        obtain ⟨other, loads, makes⟩ := loaded id lambda found
        exact ⟨other, { loads with }, makes⟩
      have makes : source.Makes Holds (site.inner node) made.method :=
        makes_method holds called loadedInside body (begun.trans typing) compiles
          ((later.grows conservative).trans grown)
      refine ih (fun other member => bodies other (.tail _ member))
        isCompiled ?_ (begun.trans (registered.grows conservative)) grown
      intro id lambda found
      have isLast := isCompiled id lambda (later.keeps found)
      rw [registered.lambda?_eq] at found
      split at found
      · rename_i same
        cases found
        refine ⟨node, ?_, makes⟩
        have alone := registered.encloses
        exact
          { member := inFunctions, symbol := registered.symbol
            isCompiled := (registered.symbol.trans same) ▸ isLast
            hasReceiver := (method_ok (conservative_callee source levels site.active opened)
              compiles).1
            methods := alone.methods, cell := alone.cell, receiver := alone.receiver }
      · exact loaded id lambda found

variable {function : CompiledFunction} {active : List SymbolId} {symbol : MethodSymbol}
  {operation : Operation}

theorem makes_nested (body : source.HasBody symbol operation) (begun : origin.Grows before.catalog)
    (compiles : nested source levels active symbol operation before = .ok function after)
    (grown : after.catalog.Grows catalog) : ∃ site : Site,
      site.Enters active symbol operation ∧ source.Makes Holds site function.method := by
  induction levels generalizing active symbol operation before after function with
  | zero => cases compiles
  | succ levels ih =>
    rw [nested_succ] at compiles
    split at compiles
    · cases compiles
    · rename_i notActive
      obtain ⟨opened, session, _, _, noLambdas, prepares, ⟨_, making⟩, starts,
        compiling, _⟩ := topLevel_ok (grows_callee source levels (symbol.id :: active)) compiles
      let site : Site := ⟨symbol, operation, symbol.id :: active, operation.functions,
        session.lambda?⟩
      have called : CalleesMade source origin catalog Holds levels site := by
        intro name _ _ compiled calls starts grows
        obtain ⟨declaration, _, found, compiles, rfl⟩ := callee_ok calls
        obtain ⟨called, enters, makes⟩ := ih (.called found) starts compiles grows
        exact ⟨called, ⟨name, declaration, found, enters⟩, makes⟩
      have finishes := grows_method (conservative_callee source levels (symbol.id :: active) session)
        symbol false operation _ _ _ compiling
      have none : LambdasMade source Holds opened site := by
        intro id lambda found
        rw [Session.lambda?, noLambdas, Std.HashMap.getElem?_empty] at found
        cases found
      have loaded : LambdasMade source Holds session site :=
        makes_lambdas holds called (registers_of_lambdas making)
          (fun node member => ⟨member, .function body member⟩) (fun _ _ found => found) none
          (begun.trans prepares) (finishes.trans grown)
      refine ⟨site, ⟨rfl, rfl, ?_, rfl, rfl⟩, ?_⟩
      · exact fun member => notActive (List.contains_iff_mem.mpr member)
      · exact makes_method holds called loaded body
          (begun.trans (prepares.trans starts)) compiling grown

end

end Make

/-! ## The bodies of a declaration -/

/-- The bodies that are compiled for a declaration: its own and those of its
anonymous functions, of several with one symbol the first. -/
inductive MethodDeclaration.Compiles (declaration : MethodDeclaration) :
    MethodSymbol -> Operation -> Prop
  | own : Compiles declaration declaration.symbol declaration.body
  | function (isFirst : declaration.body.functions.find?
      (fun other => decide (other.symbol.id = node.symbol.id)) = some node) :
      Compiles declaration node.symbol node.body

/-- A nested compilation that succeeds compiles all bodies of the declaration, and
their calls are compiled one level deeper. -/
theorem Make.bodies_of_nested {declaration : MethodDeclaration} {before after : Workspace}
    (compiles : nested source levels active declaration.symbol declaration.body before
      = .ok function after) : ∃ fewer, declaration.symbol.id ∉ active
        ∧ ∀ {symbol operation}, declaration.Compiles symbol operation ->
          ∃ session hasReceiver started ended made, before.catalog.Grows started.catalog
              ∧ method ⟨session, callee source fewer (declaration.symbol.id :: active)⟩ symbol
                hasReceiver operation started = .ok made ended
              ∧ ended.catalog.Grows after.catalog := by
  cases levels with
  | zero => cases compiles
  | succ levels =>
    rw [nested_succ] at compiles
    split at compiles
    · cases compiles
    · rename_i notActive
      have conservative := grows_callee source levels (declaration.symbol.id :: active)
      obtain ⟨opened, session, _, started, noLambdas, prepares, ⟨_, making⟩, starts,
        compiling, _⟩ := topLevel_ok conservative compiles
      refine ⟨levels, fun member => notActive (List.contains_iff_mem.mpr member), ?_⟩
      intro symbol operation isBody
      cases isBody with
      | own => exact ⟨session, false, started, after, _, prepares.trans starts, compiling, .refl _⟩
      | @function node isFirst =>
        have absent : opened.lambda? node.symbol.id = none := by
          rw [Session.lambda?, noLambdas, Std.HashMap.getElem?_empty]
        obtain ⟨inside, begun, ended, made, begins, compiles, finishes⟩ :=
          (registers_of_lambdas making).first_compiles conservative absent isFirst
        have last := grows_method
          (conservative_callee source levels (declaration.symbol.id :: active) session)
          declaration.symbol false declaration.body _ _ _ compiling
        exact ⟨inside, true, begun, ended, made, prepares.trans begins, compiles,
          finishes.trans last⟩

/-- The body that a declaration has, with the symbol it is compiled under. -/
def Source.body? (source : Source) (id : SyntaxId) : Option (MethodSymbol × Operation) :=
  match source.declaration? id with
  | some (.method declaration) => some (declaration.symbol, declaration.body)
  | some (.expression operation) => some (Make.expressionSymbol operation, operation)
  | _ => none

variable {source : Source} {id : SyntaxId}

theorem Source.hasBody_of_body? (found : source.body? id = some (symbol, operation)) :
    source.HasBody symbol operation := by
  unfold body? at found
  split at found
  · cases found
    exact .declared (by assumption)
  · cases found
    exact .expression (by assumption)
  · cases found

/-- A declaration that compiles has a body, which is compiled from the root. -/
theorem Make.declaration_ok (compiles : declaration source id before = .ok function after) :
    ∃ symbol operation, source.body? id = some (symbol, operation)
      ∧ nested source (maximumNesting source) [] symbol operation before = .ok function after := by
  unfold declaration at compiles
  unfold Source.body?
  cases found : source.declaration? id with rw [found] at compiles
  | none => cases compiles
  | some declared =>
    cases declared with
    | other => cases compiles
    | expression operation => exact ⟨_, operation, rfl, compiles⟩
    | method declaration =>
      refine ⟨declaration.symbol, declaration.body, rfl, ?_⟩
      change declaredMethod source declaration before = _ at compiles
      unfold declaredMethod at compiles
      split at compiles
      · exact compiles
      · cases compiles

end OpMachine
