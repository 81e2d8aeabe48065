import ClassWeave.Bytes.Writer
import ClassWeave.Fault

/-!
# Reading bytes

A reader takes what it needs off the front of the bytes ahead. Running out of bytes is kept apart
from all other faults, since what it means depends on what is being read.
-/

namespace ClassWeave

/-- Why a reader stopped. -/
inductive Stop where
  | endOfInput
  | fault (cause : Fault)

/-- What it means to run out of bytes is up to `onEnd`. -/
def Stop.toFault (onEnd : Fault) : Stop → Fault
  | endOfInput => onEnd
  | fault cause => cause

/-- The bytes ahead, and the number of those already taken. -/
structure Input where
  position : Nat
  ahead : Bytes

abbrev Reader (α : Type) := StateT Input (Except Stop) α

namespace Reader

def fail {α : Type} (cause : Fault) : Reader α := fun _ => .error (.fault cause)

/-- Answers with what was read and the bytes after it. -/
def runFrom {α : Type} (reader : Reader α) (onEnd : Fault) (bytes : Bytes) :
    Except Fault (α × Bytes) :=
  match reader ⟨0, bytes⟩ with
  | .ok (value, input) => .ok (value, input.ahead)
  | .error stop => .error (stop.toFault onEnd)

def uint8 : Reader UInt8
  | ⟨_, []⟩ => .error .endOfInput
  | ⟨position, byte :: rest⟩ => .ok (byte, ⟨position + 1, rest⟩)

def uint16 : Reader UInt16 := do
  let high ← uint8
  let low ← uint8
  return high.toUInt16 <<< 8 ||| low.toUInt16

def uint32 : Reader UInt32 := do
  let high ← uint16
  let low ← uint16
  return high.toUInt32 <<< 16 ||| low.toUInt32

def uint64 : Reader UInt64 := do
  let high ← uint32
  let low ← uint32
  return high.toUInt64 <<< 32 ||| low.toUInt64

def int8 : Reader Int8 := do return (← uint8).toInt8
def int16 : Reader Int16 := do return (← uint16).toInt16
def int32 : Reader Int32 := do return (← uint32).toInt32
def int64 : Reader Int64 := do return (← uint64).toInt64

/-- Reads exactly `count` bytes. -/
def take (count : Nat) : Reader Bytes := fun input =>
  let (front, rest) := input.ahead.splitAt count
  if front.length == count then .ok (front, ⟨input.position + count, rest⟩)
  else .error .endOfInput

/-- Reads `count` values after the reversed `seen`. -/
def timesFrom {α : Type} (item : Reader α) (seen : List α) : Nat → Reader (List α)
  | 0 => fun input => .ok (seen.reverse, input)
  | count + 1 => fun input =>
    match item input with
    | .error stop => .error stop
    | .ok (value, rest) => timesFrom item (value :: seen) count rest

def times {α : Type} (item : Reader α) (count : Nat) : Reader (List α) := timesFrom item [] count

/-- Reads a list after its 16-bit count. -/
def list {α : Type} (item : Reader α) : Reader (List α) := do
  let count ← uint16
  times item count.toNat

end Reader

end ClassWeave
