import ClassWeave.Bytes.Writer
import ClassWeave.Descriptor.Basic

/-!
# Branches

The instructions that may go somewhere other than the next one. `τ` is what a jump goes to: a label
while a body is edited, a bytecode offset once it is laid out.
-/

namespace ClassWeave

inductive Comparison where
  | eq
  | ne
  | lt
  | ge
  | gt
  | le
  deriving DecidableEq, Repr

def Comparison.negate : Comparison → Comparison
  | eq => ne
  | ne => eq
  | lt => ge
  | ge => lt
  | gt => le
  | le => gt

inductive Equality where
  | eq
  | ne
  deriving DecidableEq, Repr

def Equality.negate : Equality → Equality
  | eq => ne
  | ne => eq

/-- What a conditional jump looks at. -/
inductive Test where
  | zero (comparison : Comparison)
  | ints (comparison : Comparison)
  | references (equality : Equality)
  | null (equality : Equality)
  deriving DecidableEq, Repr

/-- The test that holds exactly when the given one does not. -/
def Test.negate : Test → Test
  | zero comparison => zero comparison.negate
  | ints comparison => ints comparison.negate
  | references equality => references equality.negate
  | null equality => null equality.negate

inductive Branch (τ : Type) where
  | jumpIf (test : Test) (target : τ)
  | goto (target : τ)
  /-- Goes to the target at position `value - low`, or to the default. -/
  | tableSwitch (default : τ) (low : Int32) (targets : List τ)
  | lookupSwitch (default : τ) (cases : List (Int32 × τ))
  | ret (kind : ReturnKind)
  | athrow
  deriving DecidableEq, Repr

namespace Branch

variable {τ σ : Type}

/-- Can control go on to the next instruction? -/
def fallsThrough : Branch τ → Bool
  | jumpIf _ _ => true
  | _ => false

/-- Where control can jump to. The default of a switch comes first. -/
def targets : Branch τ → List τ
  | jumpIf _ target | goto target => [target]
  | tableSwitch default _ targets => default :: targets
  | lookupSwitch default cases => default :: cases.map Prod.snd
  | ret _ | athrow => []

/-- Where the jump goes, unless it is a switch or leaves the method. -/
def jumpTarget? : Branch τ → Option τ
  | jumpIf _ target | goto target => some target
  | _ => none

/-- Changes what jumps go to, in the order of `targets`. -/
def mapM {m : Type → Type} [Monad m] (change : τ → m σ) : Branch τ → m (Branch σ)
  | jumpIf test target => jumpIf test <$> change target
  | goto target => goto <$> change target
  | tableSwitch default low targets => do
    let default ← change default
    return tableSwitch default low (← targets.mapM change)
  | lookupSwitch default cases => do
    let default ← change default
    return lookupSwitch default (← cases.mapM fun (key, target) => do
      return (key, ← change target))
  | ret kind => pure (ret kind)
  | athrow => pure athrow

/-- The conditional jump that is taken exactly when this one is not. -/
def negated? (target : σ) : Branch τ → Option (Branch σ)
  | jumpIf test _ => some (jumpIf test.negate target)
  | _ => none

/-- The zero bytes after a switch's opcode, which bring what follows to a multiple of four. -/
def switchPadding (offset : Nat) : Nat := (4 - (offset + 1) % 4) % 4

/-- The number of bytes at an offset. A widened conditional jump is the negated test over a long
`goto`. -/
def widthAt (offset : Nat) (widened : Bool) : Branch τ → Nat
  | jumpIf _ _ => if widened then 8 else 3
  | goto _ => if widened then 5 else 3
  | tableSwitch _ _ targets => 1 + switchPadding offset + 4 * (3 + targets.length)
  | lookupSwitch _ cases => 1 + switchPadding offset + 8 * (1 + cases.length)
  | ret _ | athrow => 1

end Branch

def Comparison.index : Comparison → UInt8
  | eq => 0
  | ne => 1
  | lt => 2
  | ge => 3
  | gt => 4
  | le => 5

def Equality.index : Equality → UInt8
  | eq => 0
  | ne => 1

def Test.opcode : Test → UInt8
  | zero comparison => 0x99 + comparison.index
  | ints comparison => 0x9F + comparison.index
  | references equality => 0xA5 + equality.index
  | null equality => 0xC6 + equality.index

def ReturnKind.opcode : ReturnKind → UInt8
  | int => 0xAC
  | long => 0xAD
  | float => 0xAE
  | double => 0xAF
  | reference => 0xB0
  | void => 0xB1

/-- A jump whose distance does not fit into the 16 bits it has. -/
structure FarJump where
  source : Nat
  target : Nat
  deriving DecidableEq, Repr

def FarJump.message (jump : FarJump) : String :=
  "jump from " ++ toString jump.source ++ " to " ++ toString jump.target
    ++ " does not fit in 16 bits"

namespace Branch

def distance (source target : Nat) : Int := (target : Int) - source

/-- Is a distance one that 16 bits can hold? -/
def isShort (distance : Int) : Bool := -32768 ≤ distance && distance ≤ 32767

def encodeShort (opcode : UInt8) (offset target : Nat) : Except FarJump Bytes :=
  let distance := distance offset target
  if isShort distance then .ok (opcode :: Bytes.ofUInt16 (Int16.ofInt distance).toUInt16)
  else .error ⟨offset, target⟩

/-- A distance in 32 bits. -/
def encodeWide (source target : Nat) : Bytes :=
  Bytes.ofUInt32 (Int32.ofInt (distance source target)).toUInt32

def padding (offset : Nat) : Bytes := List.replicate (switchPadding offset) 0

/-- The bytes of a branch at an offset, with targets as offsets. -/
def encodeAt (offset : Nat) (widened : Bool) : Branch Nat → Except FarJump Bytes
  | goto target =>
    if widened then .ok (0xC8 :: encodeWide offset target)
    else encodeShort 0xA7 offset target
  | jumpIf test target =>
    if widened then do
      let skip ← encodeShort test.negate.opcode offset (offset + 8)
      return skip ++ 0xC8 :: encodeWide (offset + 3) target
    else encodeShort test.opcode offset target
  | tableSwitch default low targets =>
    let high := low + Int32.ofNat targets.length - 1
    .ok (0xAA :: padding offset ++ encodeWide offset default
      ++ Bytes.ofUInt32 low.toUInt32 ++ Bytes.ofUInt32 high.toUInt32
      ++ targets.flatMap (encodeWide offset))
  | lookupSwitch default cases =>
    .ok (0xAB :: padding offset ++ encodeWide offset default
      ++ Bytes.ofUInt32 (UInt32.ofNat cases.length)
      ++ cases.flatMap fun (key, target) =>
        Bytes.ofUInt32 key.toUInt32 ++ encodeWide offset target)
  | ret kind => .ok [kind.opcode]
  | athrow => .ok [0xBF]

end Branch

end ClassWeave
