/-!
# Prefix codes

Codes that are given by the length of each symbol's code word. Shorter words come first, and words
of one length follow the order of their symbols.
-/

namespace ClassWeave

/-- A code: how many words have each length from 1 on, and the symbols in the order of their words.
-/
structure PrefixCode where
  counts : List Nat
  symbols : Array Nat
  deriving DecidableEq, Repr

namespace PrefixCode

/-- The longest that a code word can be. -/
def maxLength : Nat := 15

/-- The code in which each symbol has the given word length, none for 0. Even without words it has a
first length, so that at least a bit is read before a word turns out to be none. -/
def ofLengths (lengths : List Nat) : PrefixCode :=
  let symbolsOf (length : Nat) : List Nat :=
    lengths.zipIdx.filterMap fun (given, symbol) => if given = length then some symbol else none
  let groups := (List.range (lengths.foldl max 1)).map fun position => symbolsOf (position + 1)
  ⟨groups.map List.length, groups.flatten.toArray⟩

/-- The share of all words of the longest possible length that the code uses up. -/
def used (code : PrefixCode) : Nat :=
  code.counts.foldl (fun used count => 2 * used + count) 0 <<< (maxLength - code.counts.length)

/-- Whatever bits come, they begin with a word of the code. -/
def isComplete (code : PrefixCode) : Bool := code.used == 1 <<< maxLength

/-- There is at most one word, and it is one bit long. -/
def isLone (code : PrefixCode) : Bool := code.counts == [0] || code.counts == [1]

end PrefixCode

end ClassWeave
