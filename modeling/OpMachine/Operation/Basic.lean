import OpMachine.Literal
import OpMachine.Symbol

namespace OpMachine

/-!
Typed operation trees.

An operation is one resolved statement or expression: its shape, and with it
the static type, the compile-time constant and the source line that the front
end attached.  The constructor functions below the type give each shape the
type it has by default; a front end may attach another one.
-/

inductive BinaryOperator where
  | add | subtract | multiply | divide | remainder
  | and | or | exclusiveOr | leftShift | rightShift
  | equals | notEquals | lessThan | lessThanOrEqual | greaterThan | greaterThanOrEqual
  | conditionalAnd | conditionalOr
deriving DecidableEq, Repr

def BinaryOperator.ofName? : String -> Option BinaryOperator
  | "Add" => some .add
  | "Subtract" => some .subtract
  | "Multiply" => some .multiply
  | "Divide" => some .divide
  | "Remainder" => some .remainder
  | "And" => some .and
  | "Or" => some .or
  | "ExclusiveOr" => some .exclusiveOr
  | "LeftShift" => some .leftShift
  | "RightShift" => some .rightShift
  | "Equals" => some .equals
  | "NotEquals" => some .notEquals
  | "LessThan" => some .lessThan
  | "LessThanOrEqual" => some .lessThanOrEqual
  | "GreaterThan" => some .greaterThan
  | "GreaterThanOrEqual" => some .greaterThanOrEqual
  | "ConditionalAnd" => some .conditionalAnd
  | "ConditionalOr" => some .conditionalOr
  | _ => none

inductive UnaryOperator where
  | plus | negate | not | bitwiseNot
deriving DecidableEq, Repr

def UnaryOperator.ofName? : String -> Option UnaryOperator
  | "Plus" => some .plus
  | "Negate" => some .negate
  | "Not" => some .not
  | "BitwiseNot" => some .bitwiseNot
  | _ => none

/-- Whether a member is written as a field or as a property. -/
inductive MemberForm where
  | field
  | property
deriving DecidableEq, Repr

/-- What a front end has found out about an operation. -/
structure Info where
  /-- The static type; statements have none. -/
  type : Option Descriptor := none
  literal : Option Literal := none
  /-- The source line, zero when it is not known. -/
  line : UInt32 := 0

def Info.producesValue (info : Info) : Bool :=
  match info.type with
  | some type => !type.isVoid
  | none => false

mutual

/-- The trees that are compiled. -/
inductive Operation where
  | literal (info : Info)
  | parameter (info : Info) (symbol : ParameterSymbol)
  | localVariable (info : Info) (symbol : LocalSymbol)
  /-- The object under construction inside an object initializer. -/
  | implicitReceiver (info : Info)
  | member (info : Info) (form : MemberForm) (receiver : Option Operation)
      (symbol : MemberSymbol)
  | element (info : Info) (array : Operation) (indices : List Operation)
  | binary (info : Info) (operator : BinaryOperator) (left right : Operation)
  | unary (info : Info) (operator : UnaryOperator) (operand : Operation)
  | conversion (info : Info) (operand : Operation)
  | conditional (info : Info) (condition whenTrue : Operation) (whenFalse : Option Operation)
  | invocation (info : Info) (receiver : Option Operation) (method : MethodSymbol)
      (arguments : List Operation)
  | anonymousFunction (info : Info) (symbol : MethodSymbol) (body : Operation)
  | delegateCreation (info : Info) (target : Operation)
  | interpolation (info : Info) (parts : List InterpolationPart)
  | arrayCreation (info : Info) (sizes : List Operation)
      (initializer : Option (List Operation))
  | objectCreation (info : Info) (constructor : MethodSymbol)
      (arguments initializer : List Operation)
  | assignment (info : Info) (target value : Operation)
  | compoundAssignment (info : Info) (operator : BinaryOperator) (target value : Operation)
  | declaration (info : Info) (symbol : LocalSymbol) (initializer : Option Operation)
  | block (info : Info) (statements : List Operation)
  | expressionStatement (info : Info) (expression : Operation)
  | parenthesized (info : Info) (operand : Operation)
  | returnStatement (info : Info) (value : Option Operation)
  | whileLoop (info : Info) (condition body : Operation)
  /-- A shape outside the compiled subset, known by its name only. -/
  | unsupported (info : Info) (shape : String) (parts : List Operation)

inductive InterpolationPart where
  | text (content : String)
  | hole (value : Operation) (arguments : List HoleArgument)

/-- What a hole says besides its value. -/
inductive HoleArgument where
  | alignment (width : Operation)
  | format (specifier : String)

end

namespace Operation

def info : Operation -> Info
  | .literal info => info
  | .parameter info _ => info
  | .localVariable info _ => info
  | .implicitReceiver info => info
  | .member info _ _ _ => info
  | .element info _ _ => info
  | .binary info _ _ _ => info
  | .unary info _ _ => info
  | .conversion info _ => info
  | .conditional info _ _ _ => info
  | .invocation info _ _ _ => info
  | .anonymousFunction info _ _ => info
  | .delegateCreation info _ => info
  | .interpolation info _ => info
  | .arrayCreation info _ _ => info
  | .objectCreation info _ _ _ => info
  | .assignment info _ _ => info
  | .compoundAssignment info _ _ _ => info
  | .declaration info _ _ => info
  | .block info _ => info
  | .expressionStatement info _ => info
  | .parenthesized info _ => info
  | .returnStatement info _ => info
  | .whileLoop info _ _ => info
  | .unsupported info _ _ => info

def withInfo (info : Info) : Operation -> Operation
  | .literal _ => .literal info
  | .parameter _ symbol => .parameter info symbol
  | .localVariable _ symbol => .localVariable info symbol
  | .implicitReceiver _ => .implicitReceiver info
  | .member _ form receiver symbol => .member info form receiver symbol
  | .element _ array indices => .element info array indices
  | .binary _ operator left right => .binary info operator left right
  | .unary _ operator operand => .unary info operator operand
  | .conversion _ operand => .conversion info operand
  | .conditional _ condition whenTrue whenFalse =>
      .conditional info condition whenTrue whenFalse
  | .invocation _ receiver method arguments => .invocation info receiver method arguments
  | .anonymousFunction _ symbol body => .anonymousFunction info symbol body
  | .delegateCreation _ target => .delegateCreation info target
  | .interpolation _ parts => .interpolation info parts
  | .arrayCreation _ sizes initializer => .arrayCreation info sizes initializer
  | .objectCreation _ constructor arguments initializer =>
      .objectCreation info constructor arguments initializer
  | .assignment _ target value => .assignment info target value
  | .compoundAssignment _ operator target value =>
      .compoundAssignment info operator target value
  | .declaration _ symbol initializer => .declaration info symbol initializer
  | .block _ statements => .block info statements
  | .expressionStatement _ expression => .expressionStatement info expression
  | .parenthesized _ operand => .parenthesized info operand
  | .returnStatement _ value => .returnStatement info value
  | .whileLoop _ condition body => .whileLoop info condition body
  | .unsupported _ shape parts => .unsupported info shape parts

variable (operation : Operation)

def type : Option Descriptor := operation.info.type

def constant : Option Literal := operation.info.literal

def line : UInt32 := operation.info.line

def producesValue : Bool := operation.info.producesValue

/-! ## Shapes with their default types -/

def ofLiteral (value : Literal) : Operation :=
  .literal { type := value.descriptor, literal := some value }

def ofParameter (symbol : ParameterSymbol) : Operation :=
  .parameter { type := some symbol.type } symbol

def ofLocal (symbol : LocalSymbol) : Operation :=
  .localVariable { type := some symbol.type } symbol

def ofMember (form : MemberForm) (receiver : Option Operation) (symbol : MemberSymbol) :
    Operation :=
  .member { type := some symbol.type } form receiver symbol

/-- A call has the type its method returns, and none if it returns nothing. -/
def call (receiver : Option Operation) (method : MethodSymbol) (arguments : List Operation) :
    Operation :=
  .invocation { type := if method.returnsValue then some method.returnType else none }
    receiver method arguments

/-- An anonymous function under the delegate creation that gives it a type. -/
def lambda (type : Option Descriptor) (symbol : MethodSymbol) (body : Operation) : Operation :=
  .delegateCreation { type } (.anonymousFunction {} symbol body)

def interpolated (parts : List InterpolationPart) : Operation :=
  .interpolation { type := some .string } parts

def create (constructor : MethodSymbol) (arguments initializer : List Operation) : Operation :=
  .objectCreation { type := some constructor.containingType } constructor arguments initializer

def assign (target value : Operation) : Operation :=
  .assignment { type := target.type } target value

def compoundAssign (operator : BinaryOperator) (target value : Operation) : Operation :=
  .compoundAssignment { type := target.type } operator target value

/-- Parentheses keep the type and the constant of what they enclose. -/
def parenthesize (operand : Operation) : Operation :=
  .parenthesized { type := operand.type, literal := operand.constant } operand

end Operation
end OpMachine
