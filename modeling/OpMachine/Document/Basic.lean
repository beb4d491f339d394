namespace OpMachine

/-!
Documents: plain trees of listed and named parts.

A front end hands over types, trees and values as documents, and what the
machine makes of them is reported as documents again.  Numbers are integers;
a floating-point number travels as the text of its bits.
-/

inductive Document where
  | null
  | truth (value : Bool)
  | number (value : Int)
  | text (content : String)
  | list (items : List Document)
  | record (fields : List (String × Document))
deriving Inhabited

namespace Document

/-- A named part.  A part that is null counts as missing. -/
def field? : Document -> String -> Option Document
  | .record fields, name =>
      match fields.lookup name with
      | some .null => none
      | found => found
  | _, _ => none

def hasField : Document -> String -> Bool
  | .record fields, name => fields.any fun (key, _) => key == name
  | _, _ => false

/-- The first named part, by which alternatives are told apart. -/
def firstField : Document -> String × Document
  | .record (first :: _) => first
  | _ => ("", .null)

mutual

def depth : Document -> Nat
  | .list items => itemDepth items 0 + 1
  | .record fields => fieldDepth fields 0 + 1
  | _ => 1

def itemDepth : List Document -> Nat -> Nat
  | [], deepest => deepest
  | item :: rest, deepest => itemDepth rest (max deepest item.depth)

def fieldDepth : List (String × Document) -> Nat -> Nat
  | [], deepest => deepest
  | (_, part) :: rest, deepest => fieldDepth rest (max deepest part.depth)

end

end Document
end OpMachine
