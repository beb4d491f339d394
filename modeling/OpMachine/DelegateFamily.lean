import OpMachine.TypeDefinition

namespace OpMachine
namespace DelegateFamily

/-!
The two families of delegate types.

`Proc` types take arguments and return nothing; `Func` types take arguments
and return a value, whose type is their last generic parameter.  There is one
member of each family for every number of arguments up to eight.
-/

def maximumArity : Nat := 8

def procName : String := "Proc"

def funcName : String := "Func"

variable (arity : Nat)

def proc? : Option TypeHash :=
  if arity ≤ maximumArity then some (.ofName (genericKey procName arity)) else none

def func? : Option TypeHash :=
  if arity ≤ maximumArity then some (.ofName (genericKey funcName (arity + 1))) else none

def parameters : List TypeRef :=
  (List.range arity).map .typeParameter

def parameterNames : List String :=
  (List.range arity).map fun index => "T" ++ toString (index + 1)

/-- The member of the first family; without arguments it is not generic. -/
def procDefinition : TypeDefinition :=
  let definition := TypeDefinition.ofDelegate procName (parameters arity) .void
  if arity = 0 then definition else definition.genericOver (parameterNames arity)

def funcDefinition : TypeDefinition :=
  (TypeDefinition.ofDelegate funcName (parameters arity) (.typeParameter arity)).genericOver
    (parameterNames arity ++ ["TResult"])

def definitions : List TypeDefinition :=
  (List.range (maximumArity + 1)).flatMap fun arity =>
    [procDefinition arity, funcDefinition arity]

end DelegateFamily
end OpMachine
