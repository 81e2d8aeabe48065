/-!
# Modified UTF-8

The encoding of text in class files. It differs from UTF-8 in two places: the null character takes
two bytes, and a supplementary character is written as its two surrogates, three bytes each. So no
encoded text holds a zero byte, and none is longer than three bytes per 16-bit unit.
-/

namespace ClassWeave.ModifiedUtf8

/-- The two-byte form of a unit below `0x800`. -/
def twoBytes (unit : Nat) : List UInt8 :=
  [UInt8.ofNat (0xC0 + unit / 64), UInt8.ofNat (0x80 + unit % 64)]

/-- The three-byte form of a 16-bit unit. -/
def threeBytes (unit : Nat) : List UInt8 :=
  [UInt8.ofNat (0xE0 + unit / 4096), UInt8.ofNat (0x80 + unit / 64 % 64),
    UInt8.ofNat (0x80 + unit % 64)]

/-- The first surrogate of a supplementary character. -/
def highSurrogate (code : Nat) : Nat := 0xD800 + (code - 0x10000) / 1024

/-- The second surrogate of a supplementary character. -/
def lowSurrogate (code : Nat) : Nat := 0xDC00 + (code - 0x10000) % 1024

/-- The bytes of one character. -/
def encodeChar (c : Char) : List UInt8 :=
  let code := c.toNat
  if code ≠ 0 ∧ code < 0x80 then [UInt8.ofNat code]
  else if code < 0x800 then twoBytes code
  else if code < 0x10000 then threeBytes code
  else threeBytes (highSurrogate code) ++ threeBytes (lowSurrogate code)

/-- The bytes of a text. -/
def encode (text : String) : List UInt8 :=
  text.toList.flatMap encodeChar

/-- Bytes `0x80` to `0xBF` carry on a unit that an earlier byte began. -/
def isContinuation (byte : UInt8) : Bool := byte &&& 0xC0 == 0x80

/-- Splits bytes into 16-bit units, appended in order to the reversed `seen`. Longer forms than a
unit needs are accepted; a zero byte is not. -/
def unitsFrom (seen : List Nat) : List UInt8 → Option (List Nat)
  | [] => some seen.reverse
  | lead :: rest =>
    if lead &&& 0x80 == 0 && lead != 0 then unitsFrom (lead.toNat :: seen) rest
    else if lead &&& 0xE0 == 0xC0 then
      match rest with
      | second :: rest =>
        if isContinuation second then
          unitsFrom ((lead.toNat % 32 * 64 + second.toNat % 64) :: seen) rest
        else none
      | [] => none
    else if lead &&& 0xF0 == 0xE0 then
      match rest with
      | second :: third :: rest =>
        if isContinuation second && isContinuation third then
          unitsFrom
            ((lead.toNat % 16 * 4096 + second.toNat % 64 * 64 + third.toNat % 64) :: seen) rest
        else none
      | _ => none
    else none

/-- The 16-bit units that the bytes spell. -/
def units? (bytes : List UInt8) : Option (List Nat) := unitsFrom [] bytes

def isHighSurrogate (unit : Nat) : Bool := 0xD800 ≤ unit && unit < 0xDC00

def isLowSurrogate (unit : Nat) : Bool := 0xDC00 ≤ unit && unit < 0xE000

/-- Joins units into characters, appended in order to the reversed `seen`. A surrogate that stands
alone is no character. -/
def charsFrom (seen : List Char) : List Nat → Option (List Char)
  | [] => some seen.reverse
  | unit :: rest =>
    if isHighSurrogate unit then
      match rest with
      | low :: rest =>
        if isLowSurrogate low then
          charsFrom (Char.ofNat (0x10000 + (unit - 0xD800) * 1024 + (low - 0xDC00)) :: seen) rest
        else none
      | [] => none
    else if isLowSurrogate unit then none
    else charsFrom (Char.ofNat unit :: seen) rest

/-- Reads a text back, or `none` where the bytes spell no text. -/
def decode (bytes : List UInt8) : Option String := do
  let units ← units? bytes
  let chars ← charsFrom [] units
  return String.ofList chars

end ClassWeave.ModifiedUtf8
