import ClassWeave.Archive.Huffman

/-!
# Inflating

Undoes the compression of archive entries. Compressed data is a sequence of blocks, which hold bytes
as they are or refer back to bytes that came before.
-/

namespace ClassWeave

/-- Why compressed data stands for no bytes. -/
inductive InflateFault where
  /-- It ends before its last block does. -/
  | endOfInput
  | corrupt
  deriving DecidableEq, Repr

/-- The number of bits used, and the bytes found so far. -/
structure InflateState where
  position : Nat
  output : ByteArray

/-- Computations that take bits off compressed data. -/
abbrev InflateM (α : Type) := StateT InflateState (Except InflateFault) α

namespace Inflate

/-- The two codes of a block: one for bytes and lengths, one for distances. -/
structure BlockCodes where
  literals : PrefixCode
  distances : PrefixCode

/-- Lengths are given by a base and a number of bits that are added to it. -/
def lengthTable : Array (Nat × Nat) :=
  #[(3, 0), (4, 0), (5, 0), (6, 0), (7, 0), (8, 0), (9, 0), (10, 0), (11, 1), (13, 1), (15, 1),
    (17, 1), (19, 2), (23, 2), (27, 2), (31, 2), (35, 3), (43, 3), (51, 3), (59, 3), (67, 4),
    (83, 4), (99, 4), (115, 4), (131, 5), (163, 5), (195, 5), (227, 5), (258, 0)]

def distanceTable : Array (Nat × Nat) :=
  #[(1, 0), (2, 0), (3, 0), (4, 0), (5, 1), (7, 1), (9, 2), (13, 2), (17, 3), (25, 3), (33, 4),
    (49, 4), (65, 5), (97, 5), (129, 6), (193, 6), (257, 7), (385, 7), (513, 8), (769, 8),
    (1025, 9), (1537, 9), (2049, 10), (3073, 10), (4097, 11), (6145, 11), (8193, 12), (12289, 12),
    (16385, 13), (24577, 13)]

/-- The order in which the word lengths of the length code are listed. -/
def lengthCodeOrder : List Nat :=
  [16, 17, 18, 0, 8, 7, 9, 6, 10, 5, 11, 4, 12, 3, 13, 2, 14, 1, 15]

/-- The codes of blocks that do not bring their own. -/
def fixedCodes : BlockCodes :=
  ⟨.ofLengths (List.replicate 144 8 ++ List.replicate 112 9 ++ List.replicate 24 7
    ++ List.replicate 8 8), .ofLengths (List.replicate 32 5)⟩

variable (data : ByteArray)

/-- The next bit, the lowest of each byte coming first. -/
def bit : InflateM Nat := do
  let ⟨position, output⟩ ← get
  match data[position / 8]? with
  | none => throw .endOfInput
  | some byte =>
    set (⟨position + 1, output⟩ : InflateState)
    return (byte.toNat >>> (position % 8)) % 2

/-- A number of so many bits, the lowest first. -/
def bits : (count : Nat) → InflateM Nat
  | 0 => return 0
  | count + 1 => do
    let low ← bit data
    return low + 2 * (← bits count)

/-- Goes on reading a code word. `first` is the first word of the length reached, and `index` the
place of its symbol. -/
def symbolFrom (code : PrefixCode) (word first index : Nat) : (counts : List Nat) → InflateM Nat
  | [] => throw .corrupt
  | count :: longer => do
    let word := 2 * word + (← bit data)
    if word < first + count then
      match code.symbols[index + (word - first)]? with
      | some symbol => return symbol
      | none => throw .corrupt
    else symbolFrom code word (2 * (first + count)) (index + count) longer

def symbol (code : PrefixCode) : InflateM Nat := symbolFrom data code 0 0 0 code.counts

def emit (byte : UInt8) : InflateM Unit :=
  modify fun ⟨position, output⟩ => ⟨position, output.push byte⟩

/-- Repeats bytes from `distance` bytes back. Zeros lie before the first byte. -/
def repeatBytes (distance : Nat) : (count : Nat) → InflateM Unit
  | 0 => return
  | count + 1 => do
    modify fun ⟨position, output⟩ =>
      let byte := if distance ≤ output.size then output[output.size - distance]? else none
      ⟨position, output.push (byte.getD 0)⟩
    repeatBytes distance count

/-- A number from a table of bases and added bits. -/
def tabled (table : Array (Nat × Nat)) (index : Nat) : InflateM Nat :=
  match table[index]? with
  | some (base, extra) => do return base + (← bits data extra)
  | none => throw .corrupt

/-- The content of a coded block, up to its end mark. -/
def codedBlock (codes : BlockCodes) : (fuel : Nat) → InflateM Unit
  | 0 => throw .endOfInput
  | fuel + 1 => do
    let next ← symbol data codes.literals
    if next < 256 then
      emit (UInt8.ofNat next)
      codedBlock codes fuel
    else if next = 256 then return
    else
      let length ← tabled data lengthTable (next - 257)
      let distance ← tabled data distanceTable (← symbol data codes.distances)
      repeatBytes distance length
      codedBlock codes fuel

/-- A block of bytes as they are, which starts at a whole byte. -/
def storedBlock : InflateM Unit := do
  modify fun ⟨position, output⟩ => ⟨(position + 7) / 8 * 8, output⟩
  let length ← bits data 16
  let check ← bits data 16
  if length + check ≠ 65535 then throw .corrupt
  let ⟨position, output⟩ ← get
  let start := position / 8
  if data.size < start + length then throw .endOfInput
  set (⟨position + 8 * length, output ++ data.extract start (start + length)⟩ : InflateState)

/-- Word lengths after the reversed ones in `seen`, until there are `count`. -/
def wordLengths (code : PrefixCode) (count : Nat) : (fuel : Nat) → List Nat → InflateM (List Nat)
  | 0, _ => throw .endOfInput
  | fuel + 1, seen =>
    if seen.length = count then return seen.reverse
    else if count < seen.length then throw .corrupt
    else do
      let next ← symbol data code
      if next < 16 then wordLengths code count fuel (next :: seen)
      else if next = 16 then
        match seen with
        | [] => throw .corrupt
        | last :: _ =>
          let times := 3 + (← bits data 2)
          wordLengths code count fuel (List.replicate times last ++ seen)
      else
        let times ← if next = 17 then (3 + ·) <$> bits data 3 else (11 + ·) <$> bits data 7
        wordLengths code count fuel (List.replicate times 0 ++ seen)

/-- The code with these word lengths, if it may stand in a block. -/
def codeOf (lengths : List Nat) : InflateM PrefixCode := do
  let code := PrefixCode.ofLengths lengths
  if code.isComplete || code.isLone then return code else throw .corrupt

/-- The most symbols that a block may have for bytes and lengths. -/
def maxLiterals : Nat := 286

def maxDistances : Nat := 30

/-- The codes that a block brings with it. Their word lengths come in a code too, which has to be
complete. -/
def ownCodes : InflateM BlockCodes := do
  let literalCount := 257 + (← bits data 5)
  let distanceCount := 1 + (← bits data 5)
  let lengthCount := 4 + (← bits data 4)
  if maxLiterals < literalCount ∨ maxDistances < distanceCount then throw .corrupt
  let listed ← (lengthCodeOrder.take lengthCount).mapM fun symbol => do
    return (symbol, ← bits data 3)
  let lengthCode := PrefixCode.ofLengths
    ((List.range 19).map fun symbol => (listed.lookup symbol).getD 0)
  unless lengthCode.isComplete do throw .corrupt
  let total := literalCount + distanceCount
  let lengths ← wordLengths data lengthCode total (total + 1) []
  return ⟨← codeOf (lengths.take literalCount), ← codeOf (lengths.drop literalCount)⟩

/-- The blocks up to the last one, each of which takes a bit at least. -/
def blocks : (fuel : Nat) → InflateM Unit
  | 0 => throw .endOfInput
  | fuel + 1 => do
    let isLast ← bit data
    match ← bits data 2 with
    | 0 => storedBlock data
    | 1 => codedBlock data fixedCodes (8 * data.size + 1)
    | 2 => codedBlock data (← ownCodes data) (8 * data.size + 1)
    | _ => throw .corrupt
    if isLast = 1 then return else blocks fuel

end Inflate

/-- The bytes that compressed data stands for. What follows the last block does not matter. -/
def inflate (data : ByteArray) : Except InflateFault ByteArray := do
  let ((), state) ← (Inflate.blocks data (8 * data.size + 1)).run ⟨0, .empty⟩
  return state.output

end ClassWeave
