/-!
# Hexadecimal text

Numbers and bytes in lower case hexadecimal digits.
-/

namespace ClassWeave

/-- A number in at least `width` digits. -/
def hexDigits (width value : Nat) : String :=
  let digits := Nat.toDigits 16 value
  String.ofList (List.replicate (width - digits.length) '0' ++ digits)

/-- The value of a digit. -/
def hexValue? (c : Char) : Option Nat :=
  if c.isDigit then some (c.toNat - '0'.toNat)
  else if 'a' ≤ c ∧ c ≤ 'f' then some (c.toNat - 'a'.toNat + 10)
  else none

/-- The number that hexadecimal digits spell. -/
def readHex? (digits : String) : Option Nat :=
  digits.toList.foldlM (fun value c => return 16 * value + (← hexValue? c)) 0

/-- Two digits for each byte. -/
def hexOfBytes (bytes : List UInt8) : String :=
  String.ofList (bytes.flatMap fun byte => (hexDigits 2 byte.toNat).toList)

/-- Reads pairs of digits after the reversed bytes `seen`. -/
def bytesFrom (seen : List UInt8) : List Char → Option (List UInt8)
  | [] => some seen.reverse
  | high :: low :: rest => do
    let high ← hexValue? high
    let low ← hexValue? low
    bytesFrom (UInt8.ofNat (16 * high + low) :: seen) rest
  | [_] => none

/-- The bytes that pairs of digits spell. -/
def bytesOfHex? (digits : String) : Option (List UInt8) := bytesFrom [] digits.toList

end ClassWeave
