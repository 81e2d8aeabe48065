import ClassWeave.Hook.Spec
import ClassWeave.Text.Blank

/-!
# Spec files

Hook specs as text. A block of lines gives the spec of one class: a `class` line, an `interface`
line, and `target` lines, each of which an `args` line may follow. Words are separated by blanks,
and a hash mark hides the rest of its line.
-/

namespace ClassWeave

/-- The words of an interface line. They are read when the block is complete. -/
structure InterfaceLine where
  owner : String
  name : String
  descriptor : String

/-- The lines of a block so far, targets in reverse order. -/
structure SpecBlock where
  className : BinaryName
  interface : Option InterfaceLine
  targets : List Target

/-- The spec of one class. -/
structure ClassSpec where
  className : BinaryName
  spec : HookSpec

namespace SpecBlock

def start (className : BinaryName) : SpecBlock := ⟨className, none, []⟩

/-- The spec of a complete block. -/
def finish (block : SpecBlock) : Except SpecFault ClassSpec :=
  match block.interface with
  | none => .error (.badLine (.noInterface block.className))
  | some line => do
    let interface ← InterfaceMethod.ofTexts line.owner line.name line.descriptor
    return ⟨block.className, ← HookSpec.ofParts interface block.targets.reverse⟩

end SpecBlock

namespace SpecLine

open SpecFault (checkName)

def wrongCount {α : Type} (what : String) (expected : Nat) (given : List String) :
    Except SpecFault α :=
  .error (.badLine (.argumentCount what expected given.length))

/-- A decimal number of 16 bits, with or without a plus sign. -/
def slot? (word : String) : Option UInt16 := do
  let digits := match word.toList with
    | '+' :: rest => rest
    | letters => letters
  if digits.isEmpty || !digits.all Char.isDigit then none
  else
    let value := digits.foldl (fun value digit => 10 * value + (digit.toNat - 48)) 0
    if value < 65536 then some (UInt16.ofNat value) else none

def slot (word : String) : Except SpecFault UInt16 :=
  match slot? word with
  | some slot => .ok slot
  | none => .error (.badLine (.badSlot word))

def fieldRef (owner name : String) (type : FieldType) : Except SpecFault FieldRef := do
  return ⟨← checkName (BinaryName.ofString owner), ← checkName (UnqualifiedName.ofString name),
    type⟩

/-- The shape that a word names, with the words after it. -/
def shape (what : String) (words : List String) : Except SpecFault TriggerShape :=
  match what with
  | "entry" =>
    match words with
    | [place] => do return .entry (← slot place)
    | _ => wrongCount what 1 words
  | "entry-select" =>
    match words with
    | [place, owner, ifTrue, ifFalse, descriptor] => do
      let type ← fieldTypeOf descriptor
      return .entrySelect (← slot place) (← fieldRef owner ifTrue type)
        (← fieldRef owner ifFalse type)
    | _ => wrongCount what 5 words
  | "call-branch" =>
    match words with
    | [owner, name, descriptor] => do
      return .callBranch (← CallSite.ofTexts owner name descriptor)
    | _ => wrongCount what 3 words
  | "call-result" =>
    match words with
    | [owner, name, descriptor] => do
      return .callResult (← CallSite.ofTexts owner name descriptor)
    | _ => wrongCount what 3 words
  | "aggregate" =>
    match words with
    | [owner, name, descriptor, chunkOwner, chunkMethod] => do
      return .aggregate (← CallSite.ofTexts owner name descriptor)
        (← checkName (BinaryName.ofString chunkOwner))
        (← checkName (UnqualifiedName.ofString chunkMethod))
    | _ => wrongCount what 5 words
  | "cache" =>
    match words with
    | [owner, name, descriptor, fieldOwner, field, referenceClass] => do
      return .cache (← CallSite.ofTexts owner name descriptor)
        (← fieldRef fieldOwner field TriggerShape.cacheFieldType)
        (← checkName (BinaryName.ofString referenceClass))
    | _ => wrongCount what 6 words
  | _ => .error (.badLine (.unknownShape what))

/-- A block with one more line, which is not a `class` line. -/
def addTo (block : SpecBlock) (directive : String) (words : List String) :
    Except SpecFault SpecBlock :=
  match directive with
  | "interface" =>
    match words with
    | [owner, name, descriptor] =>
      if block.interface.isSome then .error (.badLine .secondInterface)
      else .ok { block with interface := some ⟨owner, name, descriptor⟩ }
    | _ => wrongCount directive 3 words
  | "target" =>
    match words with
    | name :: descriptor :: what :: rest => do
      let shape ← shape what rest
      let target ← Target.ofTexts name descriptor shape []
      return { block with targets := target :: block.targets }
    | _ => .error (.badLine .shortTarget)
  | "args" =>
    match block.targets with
    | [] => .error (.badLine .argumentsWithoutTarget)
    | target :: earlier => do
      let slots ← words.mapM slot
      return { block with targets := { target with argumentSlots := slots } :: earlier }
  | _ => .error (.badLine (.unknownDirective directive))

end SpecLine

/-- The block that is being read, and the specs before it in reverse order. -/
structure SpecReading where
  block : Option SpecBlock
  specs : List ClassSpec

namespace SpecReading

/-- Completes the block that is being read. -/
def finishBlock (reading : SpecReading) : Except SpecFault (List ClassSpec) :=
  match reading.block with
  | none => .ok reading.specs
  | some block => (· :: reading.specs) <$> block.finish

/-- Reads one line that has words. A new block completes the one before it. -/
def readWords (reading : SpecReading) (directive : String) (words : List String) :
    Except SpecFault SpecReading :=
  if directive = "class" then
    match words with
    | [name] => do
      let specs ← reading.finishBlock
      let className ← SpecFault.checkName (BinaryName.ofString name)
      return ⟨some (.start className), specs⟩
    | _ => SpecLine.wrongCount directive 1 words
  else
    match reading.block with
    | none => .error (.badLine (.outsideBlock directive))
    | some block => do
      return { reading with block := some (← SpecLine.addTo block directive words) }

/-- The words before the first hash mark. -/
def lineWords (line : List Char) : List String :=
  (Text.words (line.takeWhile (· != '#'))).map String.ofList

/-- Reads lines, the first of which has the given number. -/
def readLines (reading : SpecReading) (number : Nat) :
    List (List Char) → Except SpecFault SpecReading
  | [] => .ok reading
  | line :: rest => do
    match lineWords line with
    | [] => reading.readLines (number + 1) rest
    | directive :: words =>
      let reading ← (reading.readWords directive words).mapError (.atLine number)
      reading.readLines (number + 1) rest

end SpecReading

namespace SpecFile

/-- Splits at line feeds; `current` is the reversed line being read. -/
def linesFrom (current : List Char) : List Char → List (List Char)
  | [] => [current.reverse]
  | c :: rest =>
    if c == '\n' then current.reverse :: linesFrom [] rest else linesFrom (c :: current) rest

/-- The specs in the text of a spec file, in order. -/
def parse (text : String) : Except SpecFault (List ClassSpec) := do
  let reading ← SpecReading.readLines ⟨none, []⟩ 1 (linesFrom [] text.toList)
  return (← reading.finishBlock).reverse

end SpecFile

end ClassWeave
