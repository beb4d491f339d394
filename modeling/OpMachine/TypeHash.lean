import OpMachine.Digest
import OpMachine.Text.Digits

namespace OpMachine

/-!
Identities of types and members.

A type hash is a 64-bit word computed from names and from the hashes of
parameters, so the same type or member has the same identity whatever order
things are registered in.  Different kinds of entity start from different
seeds, and the position of a parameter is mixed into its contribution, so the
order of a parameter list matters.
-/

structure TypeHash where
  word : UInt64
deriving DecidableEq, Hashable, Inhabited

namespace TypeHash

def empty : TypeHash := ⟨0⟩

def isEmpty (hash : TypeHash) : Bool := hash.word == 0

/-- The factor between two neighbouring parameters of a fold. -/
def separator : UInt64 := 0x4bc94d6bd06053ad

/-- Seeds that keep types, methods, constructors and members apart. -/
def typeSeed : UInt64 := 0x2fac10b63a6cc57c
def methodSeed : UInt64 := 0x7d3c8b4a92e15f6d
def constructorSeed : UInt64 := 0x9a7f3d5e2b8c4601
def memberSeed : UInt64 := 0x1a095090689d4647
def closedMethodSeed : UInt64 := 0x3e9f5d2a8c7b1403

/-- Tabulated marks of the first parameter positions. -/
def positionMarks : List UInt64 :=
  [0x9e3779b97f4a7c15, 0xbf58476d1ce4e5b9, 0x94d049bb133111eb, 0xd6e8feb86659fd93,
    0xe7037ed1a0b428db, 0xc6a4a7935bd1e995, 0x8648dbbc94d49b8d, 0xa2b48b2c69e0d657,
    0x7c3e9f2a5b8d1403, 0x5d8c7b4a3e9f2106, 0x3f1e9d8c7b5a4203, 0x1a2b3c4d5e6f7089,
    0x9f8e7d6c5b4a3210, 0x2468ace013579bdf, 0xfdb97531eca86420, 0x123456789abcdef0]

/-- The mark of a parameter position.  Positions past the table count upwards
from the mark of the first one. -/
def positionMark (position : Nat) : UInt64 :=
  positionMarks.getD position (0x9e3779b97f4a7c15 + position.toUInt64)

/-- One parameter absorbed at its position. -/
def absorb (digest : UInt64) (position : Nat) (parameter : TypeHash) : UInt64 :=
  digest * separator + (positionMark position ^^^ parameter.word)

/-- Parameters absorbed from the left, the first one at a given position. -/
def foldFrom (digest : UInt64) (position : Nat) : List TypeHash -> UInt64
  | [] => digest
  | parameter :: rest => foldFrom (absorb digest position parameter) (position + 1) rest

def fold (seed : UInt64) (parameters : List TypeHash) : TypeHash :=
  ⟨foldFrom seed 0 parameters⟩

def ofName (name : String) : TypeHash :=
  ⟨typeSeed ^^^ Digest.ofText name⟩

def ofInstance (definition : TypeHash) (arguments : List TypeHash) : TypeHash :=
  fold definition.word arguments

def arrayKey (rank : Nat) : String :=
  "array`" ++ toString rank

def arrayDefinition (rank : Nat) : TypeHash :=
  ofName (arrayKey rank)

variable (owner : TypeHash)

/-- A method of an owner, told apart by its name and parameter types. -/
def ofMethod (name : String) (parameters : List TypeHash) : TypeHash :=
  fold (methodSeed ^^^ owner.word ^^^ Digest.ofText name) parameters

def ofConstructor (parameters : List TypeHash) : TypeHash :=
  fold (constructorSeed ^^^ owner.word) parameters

def ofClosedMethod (definition : TypeHash) (arguments : List TypeHash) : TypeHash :=
  fold (closedMethodSeed ^^^ definition.word) arguments

def ofMember (name : String) : TypeHash :=
  ⟨memberSeed ^^^ owner.word ^^^ Digest.ofText name⟩

/-- The text of a hash: sixteen hexadecimal digits after `0x`. -/
def text (hash : TypeHash) : String :=
  "0x" ++ Text.hex 16 hash.word.toNat

def void : TypeHash := ofName "void"
def bool : TypeHash := ofName "bool"
def int : TypeHash := ofName "int"
def int64 : TypeHash := ofName "int64"
def uint : TypeHash := ofName "uint"
def uint64 : TypeHash := ofName "uint64"
def float : TypeHash := ofName "float"
def double : TypeHash := ofName "double"
def string : TypeHash := ofName "string"
def object : TypeHash := ofName "object"

end TypeHash
end OpMachine
