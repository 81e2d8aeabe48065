/-!
# Labels

A label marks a position in a method body. Labels are numbered, and a body knows the next free
number.
-/

namespace ClassWeave

structure Label where
  index : Nat
  deriving DecidableEq, Repr, Hashable

namespace Label

def next (label : Label) : Label := ⟨label.index + 1⟩

def display (label : Label) : String := "L" ++ toString label.index

end Label

end ClassWeave
