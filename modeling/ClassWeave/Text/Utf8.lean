/-!
# UTF-8

Reads bytes that should be UTF-8. Mistakes do no harm: a replacement character stands for each
byte that starts no character, and for each character that breaks off.
-/

namespace ClassWeave

namespace Utf8

def replacement : Char := '\uFFFD'

/-- A character of which some bytes are still to come. -/
structure Pending where
  /-- The bits of the bytes so far. -/
  bits : Nat
  /-- The least and the greatest that the next byte can be. -/
  least : UInt8
  greatest : UInt8
  /-- How many bytes come after that one. -/
  after : Nat
  deriving DecidableEq, Repr

/-- What a byte starts if it starts a character of several bytes. The ranges rule out characters
that have shorter spellings or are none. -/
def Pending.ofFirst? (byte : UInt8) : Option Pending :=
  if byte < 0xC2 then none
  else if byte < 0xE0 then some ⟨byte.toNat % 32, 0x80, 0xBF, 0⟩
  else if byte = 0xE0 then some ⟨0, 0xA0, 0xBF, 1⟩
  else if byte = 0xED then some ⟨13, 0x80, 0x9F, 1⟩
  else if byte < 0xF0 then some ⟨byte.toNat % 16, 0x80, 0xBF, 1⟩
  else if byte = 0xF0 then some ⟨0, 0x90, 0xBF, 2⟩
  else if byte < 0xF4 then some ⟨byte.toNat % 8, 0x80, 0xBF, 2⟩
  else if byte = 0xF4 then some ⟨4, 0x80, 0x8F, 2⟩
  else none

/-- The characters that are complete with a first byte, and the one that is not. -/
def first (byte : UInt8) : List Char × Option Pending :=
  if byte < 0x80 then ([Char.ofNat byte.toNat], none)
  else
    match Pending.ofFirst? byte with
    | some pending => ([], some pending)
    | none => ([replacement], none)

/-- The characters that are complete with one more byte, and the one that is not. A byte that a
character cannot go on with is a first byte again. -/
def step : Option Pending → UInt8 → List Char × Option Pending
  | none, byte => first byte
  | some ⟨bits, least, greatest, after⟩, byte =>
    if least ≤ byte ∧ byte ≤ greatest then
      let bits := 64 * bits + byte.toNat % 64
      match after with
      | 0 => ([Char.ofNat bits], none)
      | after + 1 => ([], some ⟨bits, 0x80, 0xBF, after⟩)
    else
      let (complete, pending) := first byte
      (replacement :: complete, pending)

def charsFrom : Option Pending → List UInt8 → List Char
  | none, [] => []
  | some _, [] => [replacement]
  | pending, byte :: bytes =>
    let (complete, pending) := step pending byte
    complete ++ charsFrom pending bytes

def decode (bytes : List UInt8) : String := String.ofList (charsFrom none bytes)

end Utf8

end ClassWeave
