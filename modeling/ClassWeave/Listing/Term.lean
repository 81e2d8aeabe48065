/-!
# Terms

The material of listings: words, numbers and flags in nested lists. A term that stands for a thing
of several kinds is a list whose first word names the kind.
-/

namespace ClassWeave

inductive Term where
  | none
  | flag (value : Bool)
  | number (value : Int)
  | text (value : String)
  | list (terms : List Term)
  deriving Repr, Inhabited

namespace Term

/-- A list that starts with a word. -/
def call (head : String) (arguments : List Term) : Term := list (text head :: arguments)

def ofNat (value : Nat) : Term := number value

def ofUInt16 (value : UInt16) : Term := number value.toNat

def toFlag? : Term → Option Bool
  | flag value => some value
  | _ => Option.none

def toInt? : Term → Option Int
  | number value => some value
  | _ => Option.none

def toNat? (term : Term) : Option Nat := term.toInt?.map Int.toNat

def toUInt16? (term : Term) : Option UInt16 := term.toNat?.map UInt16.ofNat

def toText? : Term → Option String
  | text value => some value
  | _ => Option.none

def toList? : Term → Option (List Term)
  | list terms => some terms
  | _ => Option.none

/-- The first word of a list and what follows it. -/
def toCall? : Term → Option (String × List Term)
  | list (text head :: arguments) => some (head, arguments)
  | _ => Option.none

end Term

end ClassWeave
