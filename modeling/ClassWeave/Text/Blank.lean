/-!
# Blank characters

The characters that separate words in hook spec files: those with the Unicode property White_Space.
-/

namespace ClassWeave.Text

def isBlank (c : Char) : Bool :=
  let code := c.toNat
  (0x09 ≤ code && code ≤ 0x0D) || code == 0x20 || code == 0x85 || code == 0xA0 || code == 0x1680
    || (0x2000 ≤ code && code ≤ 0x200A) || code == 0x2028 || code == 0x2029 || code == 0x202F
    || code == 0x205F || code == 0x3000

/-- Splits at blanks; `current` is the reversed word being read. -/
def wordsFrom (current : List Char) : List Char → List (List Char)
  | [] => if current.isEmpty then [] else [current.reverse]
  | c :: rest =>
    if isBlank c then
      if current.isEmpty then wordsFrom [] rest else current.reverse :: wordsFrom [] rest
    else wordsFrom (c :: current) rest

/-- The words of a text: its longest pieces without blanks. -/
def words (text : List Char) : List (List Char) := wordsFrom [] text

end ClassWeave.Text
