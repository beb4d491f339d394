import OpMachine.Proofs.StackHeights

namespace OpMachine

/-!
# Parts of translated code

Every marked part of the code of a tree is the code of the expression or of the
statement that its mark names.  What is known of the code of an expression is
therefore known of it wherever it stands in the code of a body.
-/

namespace Code

variable {Mark : Type} {Property : Mark -> Code Mark -> Prop} {code : Code Mark}

/-- A property of all marked parts of a piece of code. -/
def EachPart (Property : Mark -> Code Mark -> Prop) : Code Mark -> Prop
  | .empty => True
  | .single _ => True
  | .append first second => first.EachPart Property ∧ second.EachPart Property
  | .branch whenTrue whenFalse => whenTrue.EachPart Property ∧ whenFalse.EachPart Property
  | .guarded whenTrue => whenTrue.EachPart Property
  | .loop condition body => condition.EachPart Property ∧ body.EachPart Property
  | .marked mark part => Property mark part ∧ part.EachPart Property

theorem EachPart.of_mem (each : code.EachPart Property)
    (member : (start, mark, part) ∈ code.parts offset) : Property mark part := by
  induction code generalizing offset with
  | empty | single => cases member
  | append _ _ inFirst inSecond | branch _ _ inFirst inSecond | loop _ _ inFirst inSecond =>
    rcases List.mem_append.mp member with here | later
    · exact inFirst each.1 here
    · exact inSecond each.2 later
  | guarded _ inTrue => exact inTrue each member
  | marked _ _ inInner =>
    rcases List.mem_cons.mp member with same | below
    · cases same
      exact each.1
    · exact inInner each.2 below

end Code

/-! ## Code without marks -/

namespace MarkedCode

variable {Property : CodeMark -> MarkedCode -> Prop} {pool : ConstantPool} {code : MarkedCode}
  {place : StorePlace} {use : ValueUse}

theorem eachPart_reload (slots : List UInt16) : (reload slots).EachPart Property := by
  induction slots with
  | nil => trivial
  | cons _ _ ih => exact ⟨trivial, ih⟩

theorem eachPart_loads (loads : Emit.Loads pool constant code) : code.EachPart Property := by
  rcases loads with ⟨index, _, rfl⟩ | ⟨index, _, rfl⟩ <;> trivial

theorem eachPart_literal {literal : Literal} (loads : literal.Loads pool code) :
    code.EachPart Property := by
  cases literal with
  | null | bool =>
    rw [show code = _ from loads]
    trivial
  | char | decimal => exact loads.elim
  | _ => exact eachPart_loads loads

theorem eachPart_loadCode (loads : place.LoadCode pool code) : code.EachPart Property := by
  cases place with
  | member =>
    rcases loads with ⟨index, _, rfl⟩
    trivial
  | _ =>
    rw [show code = _ from loads]
    trivial

theorem eachPart_storeCode (stores : place.StoreCode pool code) : code.EachPart Property := by
  cases place with
  | member =>
    rcases stores with ⟨index, _, rfl⟩
    trivial
  | _ =>
    rw [show code = _ from stores]
    trivial

theorem eachPart_keeping (each : code.EachPart Property) :
    (keeping use code).EachPart Property := by
  cases use with
  | kept => exact ⟨trivial, each⟩
  | discarded => exact each

theorem eachPart_operates (operates : Compile.Operates opcodes code) : code.EachPart Property := by
  induction operates with
  | none => trivial
  | next _ _ _ _ ih => exact ⟨trivial, ih⟩

theorem eachPart_storesAbove (above : Compile.StoresAbove finished low store use code)
    (each : store.EachPart Property) : code.EachPart Property := by
  cases above with
  | discarded => exact each
  | kept => exact ⟨trivial, trivial, each, trivial⟩

end MarkedCode

/-! ## Translated parts -/

namespace Compile

variable {outer : Surroundings} {origin : Catalog} {finished : Body}

/-- A part is the code of what its mark names. -/
def TranslatesPart (surroundings : Surroundings) (origin : Catalog) (finished : Body)
    (mark : CodeMark) (part : MarkedCode) : Prop :=
  ∃ depth low, match mark with
    | .expression use operation => Translates surroundings origin finished depth low
        (.value use operation) (.marked (.expression use operation) part)
    | .statement operation => ∃ returnsValue, Translates surroundings origin finished
        depth low (.statement returnsValue operation) (.marked (.statement operation) part)

open MarkedCode in
/-- The parts of translated code are translated.  The induction is on the
translation, with one case for each of its rules. -/
theorem Translates.eachPart {depth low : Nat} {task : Task} {code : MarkedCode}
    (translates : Translates outer origin finished depth low task code) :
    code.EachPart (TranslatesPart outer origin finished) := by
  induction translates with
  | kept shape inner => exact ⟨⟨_, _, .kept shape⟩, inner⟩
  | dropped shape produces inner => exact ⟨⟨_, _, .dropped shape produces⟩, inner, trivial⟩
  | droppedNothing shape nothing inner => exact ⟨⟨_, _, .droppedNothing shape nothing⟩, inner⟩
  | assignment store inner => exact ⟨⟨_, _, .assignment store⟩, inner⟩
  | compoundAssignment update inner => exact ⟨⟨_, _, .compoundAssignment update⟩, inner⟩
  | parenthesized translates inner => exact ⟨⟨_, _, .parenthesized translates⟩, inner⟩
  | literal _ loads => exact eachPart_literal loads
  | parameter | localVariable | delegateCreation | noValues | noItems | noParts | noAlignments
  | noEntries | noSpills | noStatements => trivial
  | staticMember _ _ loads => exact eachPart_loadCode loads
  | instanceMember _ _ _ loads inner => exact ⟨inner, eachPart_loadCode loads⟩
  | element _ _ _ _ first second => exact ⟨first, second, trivial⟩
  | binary _ _ operates first second => exact ⟨first, second, eachPart_operates operates⟩
  | unary _ operates inner => exact ⟨inner, eachPart_operates operates⟩
  | conversion _ _ _ converts inner => exact ⟨inner, by cases converts <;> trivial⟩
  | conditional _ _ _ first second third => exact ⟨first, second, third⟩
  | call _ _ _ _ calls first => exact ⟨first, by cases calls <;> trivial⟩
  | callOnReceiver _ _ _ _ _ calls first second => exact ⟨first, second, by cases calls <;> trivial⟩
  | interpolation _ _ lengths holes _ _ _ _ _ inner =>
    exact ⟨⟨eachPart_loads lengths, eachPart_loads holes, trivial⟩, inner, trivial⟩
  | newArray _ _ _ inner | statementBody _ _ inner | valueBody _ _ _ inner
  | effectBody _ _ inner => exact ⟨inner, trivial⟩
  | newVector _ length _ _ inner => exact ⟨eachPart_loads length.2, trivial, inner⟩
  | newSizedVector _ _ _ _ first second | objectCreation _ _ _ _ _ _ first second
  | spill _ _ _ first second => exact ⟨first, trivial, second⟩
  | moreValues _ _ first second | alignment _ _ first second
  | moreStatements _ _ first second => exact ⟨first, second⟩
  | moreItems index _ _ first second =>
    exact ⟨trivial, eachPart_loads index.2, first, trivial, second⟩
  | textPart _ text _ _ inner => exact ⟨⟨trivial, eachPart_loads text, trivial⟩, inner⟩
  | holePart _ _ _ format _ _ first second third =>
    refine ⟨trivial, first, second, ?_, trivial, third⟩
    rcases format with ⟨_, rfl⟩ | ⟨specifier, _, loads⟩
    · trivial
    · exact eachPart_loads loads
  | format _ inner | storeParenthesized _ inner | updateParenthesized _ inner => exact inner
  | entry _ _ first second => exact ⟨trivial, first, second⟩
  | storeSimple _ _ stores inner => exact ⟨inner, eachPart_keeping (eachPart_storeCode stores)⟩
  | storeImplicit _ _ _ _ _ stores above inner =>
    exact ⟨inner, eachPart_storesAbove above (eachPart_storeCode stores)⟩
  | storeMember _ _ _ _ _ stores above first second =>
    exact ⟨first, second, eachPart_storesAbove above (eachPart_storeCode stores)⟩
  | storeElement _ _ _ _ _ above first second third =>
    exact ⟨first, second, third, eachPart_storesAbove above trivial⟩
  | updateSimple _ loads _ operates stores inner =>
    exact ⟨eachPart_loadCode loads, inner, eachPart_operates operates,
      eachPart_keeping (eachPart_storeCode stores)⟩
  | updateMember _ _ _ _ _ loads _ operates stores above first second =>
      exact ⟨first, trivial, eachPart_reload _, eachPart_reload _, eachPart_loadCode loads, second,
        eachPart_operates operates, eachPart_storesAbove above (eachPart_storeCode stores)⟩
  | updateElement _ _ _ _ _ _ operates above first spilled second =>
      exact ⟨first, trivial, spilled, eachPart_reload _, eachPart_reload _, trivial, second,
        eachPart_operates operates, eachPart_storesAbove above trivial⟩
  | block translates inner => exact ⟨⟨_, _, _, .block translates⟩, inner⟩
  | declaration found start inner => exact ⟨⟨_, _, true, .declaration found start⟩, inner, trivial⟩
  | @defaultDeclaration _ low _ _ _ _ _ _ found isType present =>
    exact ⟨⟨_, low, true, .defaultDeclaration found isType present⟩, trivial, trivial⟩
  | returnValue operand inner => exact ⟨⟨_, _, _, .returnValue operand⟩, inner, trivial⟩
  | returnDropped operand inner => exact ⟨⟨_, _, _, .returnDropped operand⟩, inner, trivial⟩
  | @returnNothing depth low => exact ⟨⟨depth, low, _, .returnNothing⟩, trivial⟩
  | whileLoop test repeated first second => exact ⟨⟨_, _, _, .whileLoop test repeated⟩, first, second⟩
  | onlyIf untyped test onTrue first second =>
    exact ⟨⟨_, _, _, .onlyIf untyped test onTrue⟩, first, second⟩
  | ifElse untyped test onTrue onFalse first second third =>
    exact ⟨⟨_, _, _, .ifElse untyped test onTrue onFalse⟩, first, second, third⟩
  | expressionStatement translates inner =>
    exact ⟨⟨_, _, true, .expressionStatement translates⟩, inner⟩
  | evaluated isExpression translates inner =>
    exact ⟨⟨_, _, true, .evaluated isExpression translates⟩, inner⟩

end Compile
end OpMachine
