import ClassWeave.Bytes.Writer
import ClassWeave.Typing.VerificationType

/-!
# Stack maps

The entries of a stack map, each given as a change to the frame before it, and their bytes.
-/

namespace ClassWeave

/-- A frame as stack maps list it: a two-slot local is one entry, unusable locals at the end are
left out, and the stack starts at the bottom. -/
structure StoredFrame where
  locals : List StoredType
  stack : List StoredType
  deriving DecidableEq, Repr

/-- An entry of a stack map. `delta` is one less than the distance from the entry before it. -/
inductive StackMapEntry where
  /-- The same locals and nothing on the stack. -/
  | same (delta : UInt16)
  /-- The same locals and one value on the stack. -/
  | sameOneStack (delta : UInt16) (value : StoredType)
  /-- The last `count` locals, one to three, are gone. -/
  | chop (delta : UInt16) (count : UInt8)
  /-- One to three locals are added. -/
  | append (delta : UInt16) (added : List StoredType)
  | full (delta : UInt16) (locals stack : List StoredType)
  deriving DecidableEq, Repr

def VerificationType.encode : StoredType → Bytes
  | top => [0]
  | integer => [1]
  | float => [2]
  | double => [3]
  | long => [4]
  | null => [5]
  | uninitializedThis => [6]
  | object index => 7 :: Bytes.ofUInt16 index
  | uninitialized offset => 8 :: Bytes.ofUInt16 offset

namespace StackMapEntry

/-- Does the entry drop or add a number of locals that there is a code for? -/
def isInRange : StackMapEntry → Bool
  | chop _ count => 0 < count && count < 4
  | append _ added => 0 < added.length && added.length < 4
  | _ => true

/-- The bytes of an entry that is in range. -/
def encode : StackMapEntry → Bytes
  | same delta => if delta ≤ 63 then [delta.toUInt8] else 251 :: Bytes.ofUInt16 delta
  | sameOneStack delta value =>
    (if delta ≤ 63 then [delta.toUInt8 + 64] else 247 :: Bytes.ofUInt16 delta) ++ value.encode
  | chop delta count => (251 - count) :: Bytes.ofUInt16 delta
  | append delta added =>
    (251 + UInt8.ofNat added.length) :: Bytes.ofUInt16 delta
      ++ added.flatMap VerificationType.encode
  | full delta locals stack =>
    255 :: Bytes.ofUInt16 delta ++ Bytes.ofList VerificationType.encode locals
      ++ Bytes.ofList VerificationType.encode stack

end StackMapEntry

/-- The bytes of a whole stack map: the number of entries, then the entries. -/
def encodeStackMap (entries : List StackMapEntry) : Bytes :=
  Bytes.ofList StackMapEntry.encode entries

namespace StoredFrame

/-- Counts on from `count` while two lists agree. -/
def sharedFrom (count : Nat) : List StoredType → List StoredType → Nat
  | a :: restA, b :: restB => if a = b then sharedFrom (count + 1) restA restB else count
  | _, _ => count

/-- The length of the longest beginning that two lists share. -/
def sharedLength (a b : List StoredType) : Nat := sharedFrom 0 a b

/-- The shortest entry that leads from `previous` to `frame`. -/
def entryAfter (frame previous : StoredFrame) (delta : UInt16) : StackMapEntry :=
  let length := frame.locals.length
  let previousLength := previous.locals.length
  let shared := sharedLength frame.locals previous.locals
  match frame.stack with
  | [] =>
    if shared = length ∧ length = previousLength then .same delta
    else if shared = length ∧ previousLength - length < 4 then
      .chop delta (UInt8.ofNat (previousLength - length))
    else if shared = previousLength ∧ length - previousLength < 4 then
      .append delta (frame.locals.drop previousLength)
    else .full delta frame.locals frame.stack
  | [value] =>
    if frame.locals = previous.locals then .sameOneStack delta value
    else .full delta frame.locals frame.stack
  | _ => .full delta frame.locals frame.stack

end StoredFrame

end ClassWeave
