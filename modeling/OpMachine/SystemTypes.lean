import OpMachine.DelegateFamily

namespace OpMachine
namespace SystemTypes

/-!
The types that every catalog holds.

These are the primitive types, the root class, the sequence interface, the
nullable values, the arrays up to a highest rank, the delegate families and
the type of texts under construction, on which interpolation relies.
-/

def maximumRank : Nat := 4

def textBuilderName : String := "InterpolatedTextBuilder"

def appendLiteralName : String := "AppendLiteral"

def appendFormattedName : String := "AppendFormatted"

def takeTextName : String := "ToStringAndClear"

/-- The primitive types; all but the texts are value types. -/
def primitives : List TypeDefinition :=
  ["void", "bool", "int", "int64", "uint", "uint64", "float", "double"].map
      (TypeDefinition.ofPrimitive · true)
    ++ [.ofPrimitive "string" false]

def sequence : TypeDefinition := (TypeDefinition.ofInterface "IEnumerable").genericOver ["T"]

def nullable : TypeDefinition :=
  ((TypeDefinition.ofValueType "Nullable").genericOver ["T"]).nullable

def arrays : List TypeDefinition :=
  (List.range maximumRank).map fun index => .ofArray (index + 1)

def appendFormatted (parameters : List TypeRef) : MethodDefinition :=
  { name := appendFormattedName
    parameters := .methodParameter 0 :: parameters
    genericParameters := ["T"] }

def textBuilder : TypeDefinition :=
  (TypeDefinition.ofValueType textBuilderName)
    |>.addConstructorAction [.int, .int] (.newText textBuilderName)
    |>.addMethod { name := appendLiteralName, parameters := [.string] } .appendLiteral
    |>.addMethod (appendFormatted []) (.appendFormatted false false)
    |>.addMethod (appendFormatted [.string]) (.appendFormatted false true)
    |>.addMethod (appendFormatted [.int]) (.appendFormatted true false)
    |>.addMethod (appendFormatted [.int, .string]) (.appendFormatted true true)
    |>.addMethod { name := takeTextName, returnType := .string } .takeText

def definitions : List TypeDefinition :=
  primitives ++ [.ofClass "object", sequence, nullable] ++ arrays
    ++ DelegateFamily.definitions ++ [textBuilder]

end SystemTypes
end OpMachine
