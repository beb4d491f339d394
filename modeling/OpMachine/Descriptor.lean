namespace OpMachine

/-!
Type descriptors: how a front end names a static type.

A descriptor is only a name.  Whether it denotes a type is decided by a
catalog, which resolves it to a type hash.  The text of a descriptor is also
the display name of the type it resolves to.
-/

inductive Descriptor where
  | void
  | named (name : String) (arguments : List Descriptor)
  | array (element : Descriptor) (rank : UInt8)
  /-- A generic parameter that nothing has been substituted for. -/
  | parameter (name : String)
deriving Inhabited, Repr

namespace Descriptor

def simple (name : String) : Descriptor := .named name []

def bool : Descriptor := simple "bool"
def int : Descriptor := simple "int"
def int64 : Descriptor := simple "int64"
def uint : Descriptor := simple "uint"
def uint64 : Descriptor := simple "uint64"
def float : Descriptor := simple "float"
def double : Descriptor := simple "double"
def string : Descriptor := simple "string"

def isVoid : Descriptor -> Bool
  | .void => true
  | _ => false

mutual

def isOpen : Descriptor -> Bool
  | .void => false
  | .named _ arguments => anyOpen arguments
  | .array element _ => element.isOpen
  | .parameter _ => true

def anyOpen : List Descriptor -> Bool
  | [] => false
  | head :: tail => head.isOpen || anyOpen tail

end

/-- Brackets of an array of a rank, with a comma between two dimensions. -/
def brackets (rank : Nat) : String :=
  "[" ++ String.ofList (List.replicate (rank - 1) ',') ++ "]"

mutual

/-- The text of a descriptor, as it stands in messages and display names. -/
def text : Descriptor -> String
  | .void => "void"
  | .named name [] => name
  | .named name (head :: tail) =>
      name ++ "<" ++ ", ".intercalate (head.text :: texts tail) ++ ">"
  | .array element rank => element.text ++ brackets rank.toNat
  | .parameter name => name

def texts : List Descriptor -> List String
  | [] => []
  | head :: tail => head.text :: texts tail

end

variable (descriptors : List Descriptor)

theorem texts_eq_map : texts descriptors = descriptors.map text := by
  induction descriptors with
  | nil => rfl
  | cons head tail ih => simp [texts, ih]

theorem anyOpen_eq_any : anyOpen descriptors = descriptors.any isOpen := by
  induction descriptors with
  | nil => rfl
  | cons head tail ih => simp [anyOpen, ih]

end Descriptor
end OpMachine
