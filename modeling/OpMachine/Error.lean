namespace OpMachine

/-!
Everything that can go wrong, by phase.

Each phase has its own type of causes, one function that words them and one
that names their kind.  A failure of a whole request wraps the cause of the
phase it happened in, and has the kind of that cause.
-/

inductive RegistrationError where
  | duplicateType (name : String)
  | duplicateMember (typeName member : String)
  | typeNotFound (name referencedBy : String)
deriving DecidableEq, Repr

def RegistrationError.message : RegistrationError -> String
  | .duplicateType name => "duplicate type '" ++ name ++ "'"
  | .duplicateMember typeName member =>
      "duplicate member '" ++ member ++ "' on type '" ++ typeName ++ "'"
  | .typeNotFound name referencedBy =>
      "type '" ++ name ++ "' referenced by '" ++ referencedBy ++ "' is not registered"

def RegistrationError.kind : RegistrationError -> String
  | .duplicateType _ => "Registration.DuplicateType"
  | .duplicateMember _ _ => "Registration.DuplicateMember"
  | .typeNotFound _ _ => "Registration.TypeNotFound"

inductive CompilationError where
  | unresolvedType (name : String)
  /-- No candidate takes the requested parameter types. -/
  | unresolvedOverload (name : String) (parameters : List String)
  | unsupportedShape (shape : String)
  | missingValue (member : String)
  /-- A declaration or symbol is not of the kind a request needs. -/
  | invalidSymbol (expected found : String)
deriving DecidableEq, Repr

def CompilationError.message : CompilationError -> String
  | .unresolvedType name => "unresolved type '" ++ name ++ "'"
  | .unresolvedOverload name parameters =>
      "no compatible overload for '" ++ name ++ "(" ++ ", ".intercalate parameters ++ ")'"
  | .unsupportedShape shape => "unsupported operation shape: " ++ shape
  | .missingValue member => "no value available for required member '" ++ member ++ "'"
  | .invalidSymbol expected found =>
      "invalid symbol shape: expected " ++ expected ++ ", found " ++ found

def CompilationError.kind : CompilationError -> String
  | .unresolvedType _ => "Compilation.UnresolvedType"
  | .unresolvedOverload _ _ => "Compilation.UnresolvedMethodOverload"
  | .unsupportedShape _ => "Compilation.UnsupportedOperationShape"
  | .missingValue _ => "Compilation.MissingRequiredValue"
  | .invalidSymbol _ _ => "Compilation.InvalidSymbolShape"

inductive ConversionError where
  | typeMismatch (expected actual : String)
  | integerOverflow (value : Int) (target : String)
  | signatureMismatch (expected actual : String)
deriving DecidableEq, Repr

def ConversionError.message : ConversionError -> String
  | .typeMismatch expected actual => "expected " ++ expected ++ ", got " ++ actual
  | .integerOverflow value target =>
      "integer overflow: " ++ toString value ++ " doesn't fit in " ++ target
  | .signatureMismatch expected actual =>
      "function shape mismatch: expected " ++ expected ++ ", compiled " ++ actual

def ConversionError.kind : ConversionError -> String
  | .typeMismatch _ _ => "Conversion.TypeMismatch"
  | .integerOverflow _ _ => "Conversion.IntegerOverflow"
  | .signatureMismatch _ _ => "Conversion.SignatureMismatch"

/-- How a run fails. -/
inductive RuntimeError where
  | typeMismatch (expected actual : String)
  | nullReference (context : String)
  | divisionByZero
  | indexOutOfRange (index : Int) (length : Nat)
  | allocationFailed (dimensions : List Nat)
  | callDepthExceeded (limit : Nat)
  | invalidFormat (format : String)
  | memberNotFound (typeName member : String)
  | invalidBytecode (offset : Nat) (reason : String)
  | host (message : String)
  | conversion (cause : ConversionError)
deriving DecidableEq, Repr

namespace RuntimeError

def listText (numbers : List Nat) : String :=
  "[" ++ ", ".intercalate (numbers.map toString) ++ "]"

def message : RuntimeError -> String
  | .typeMismatch expected actual =>
      "type mismatch: expected " ++ expected ++ ", got " ++ actual
  | .nullReference context => "null reference in " ++ context
  | .divisionByZero => "division by zero"
  | .indexOutOfRange index length =>
      "index " ++ toString index ++ " out of range for length " ++ toString length
  | .allocationFailed dimensions =>
      "cannot allocate array of dimensions " ++ listText dimensions
  | .callDepthExceeded limit => "call depth limit of " ++ toString limit ++ " exceeded"
  | .invalidFormat format => "invalid format string '" ++ format ++ "'"
  | .memberNotFound typeName member =>
      "member " ++ member ++ " not found on '" ++ typeName ++ "'"
  | .invalidBytecode offset reason =>
      "invalid bytecode at offset " ++ toString offset ++ ": " ++ reason
  | .host message => message
  | .conversion cause => cause.message

def kind : RuntimeError -> String
  | .typeMismatch _ _ => "Runtime.TypeMismatch"
  | .nullReference _ => "Runtime.NullReference"
  | .divisionByZero => "Runtime.DivisionByZero"
  | .indexOutOfRange _ _ => "Runtime.IndexOutOfRange"
  | .allocationFailed _ => "Runtime.AllocationFailed"
  | .callDepthExceeded _ => "Runtime.CallDepthExceeded"
  | .invalidFormat _ => "Runtime.InvalidFormat"
  | .memberNotFound _ _ => "Runtime.MemberNotFound"
  | .invalidBytecode _ _ => "Runtime.InvalidBytecode"
  | .host _ => "Runtime.Native"
  | .conversion cause => "Runtime." ++ cause.kind

end RuntimeError

inductive RequestError where
  | registration (cause : RegistrationError)
  | compilation (cause : CompilationError)
  | runtime (cause : RuntimeError)
  | conversion (cause : ConversionError)
deriving DecidableEq, Repr

def RequestError.message : RequestError -> String
  | .registration cause => "registration error: " ++ cause.message
  | .compilation cause => "compilation error: " ++ cause.message
  | .runtime cause => "runtime error: " ++ cause.message
  | .conversion cause => "conversion error: " ++ cause.message

def RequestError.kind : RequestError -> String
  | .registration cause => cause.kind
  | .compilation cause => cause.kind
  | .runtime cause => cause.kind
  | .conversion cause => cause.kind
end OpMachine
