import ClassWeave.Code.Body
import ClassWeave.Code.Mnemonic
import ClassWeave.Listing.Constant

/-!
# Listing method bodies

An instruction is listed as its mnemonic and its operands. Loads and stores always show their slot,
switches their default first.
-/

namespace ClassWeave

open Term (call ofUInt16)

namespace Instruction

/-- The operands of a listed instruction. -/
def arguments : SymInstruction → List Term
  | .pushByte value => [.number value.toInt]
  | .pushShort value => [.number value.toInt]
  | .load _ slot | .store _ slot => [ofUInt16 slot]
  | .increment slot amount => [ofUInt16 slot, .number amount.toInt]
  | .invoke (.interface slots) method => [method.toTerm, .number slots.toNat]
  | .newPrimitiveArray type => [.text type.render]
  | .newMultiArray type dimensions => [.text type.className, .number dimensions.toNat]
  | instruction => (instruction.operand?.map fun operand => operand.2.toTerm).toList

def toTerm (instruction : SymInstruction) : Term := call instruction.mnemonic instruction.arguments

def slotKinds : List SlotKind := [.int, .long, .float, .double, .reference]

def fieldOps : List FieldOp := [.getStatic, .putStatic, .getField, .putField]

def invokeKinds : List InvokeKind := [.virtual, .special, .static]

def classOps : List ClassOp := [.new, .newArray, .checkCast, .instanceOf]

variable {ω : OperandKind → Type}

/-- Reads a listed instruction whose operands `operand` reads. -/
def ofTerm? (operand : (kind : OperandKind) → Term → Option (ω kind)) (term : Term) :
    Option (Instruction ω) := do
  let (head, arguments) ← term.toCall?
  match arguments with
  | [] => return plain (← Plain.byMnemonic[head]?)
  | first :: rest =>
    if let some kind := slotKinds.find? fun kind => kind.letter ++ "load" == head then
      return load kind (← first.toUInt16?)
    if let some kind := slotKinds.find? fun kind => kind.letter ++ "store" == head then
      return store kind (← first.toUInt16?)
    if let some op := fieldOps.find? (·.mnemonic == head) then
      return field op (← operand .field first)
    if let some kind := invokeKinds.find? (·.mnemonic == head) then
      return invoke kind (← operand .method first)
    if let some op := classOps.find? (·.mnemonic == head) then
      return onClass op (← operand .classRef first)
    match head, rest with
    | "bipush", [] => return pushByte (Int8.ofInt (← first.toInt?))
    | "sipush", [] => return pushShort (Int16.ofInt (← first.toInt?))
    | "ldc", [] => return loadConstant (← operand .loadable first)
    | "ldc2_w", [] => return loadWideConstant (← operand .loadable first)
    | "iinc", [amount] => return increment (← first.toUInt16?) (Int16.ofInt (← amount.toInt?))
    | "invokeinterface", [slots] =>
      return invoke (.interface (UInt8.ofNat (← slots.toNat?))) (← operand .method first)
    | "invokedynamic", [] => return invokeDynamic (← operand .callSite first)
    | "newarray", [] => return newPrimitiveArray (← (BaseType.parse (← first.toText?)).toOption)
    | "multianewarray", [dimensions] =>
      return newMultiArray (← operand .classRef first) (UInt8.ofNat (← dimensions.toNat?))
    | _, _ => none

end Instruction

namespace Branch

variable {τ : Type}

/-- Lists a branch whose targets `target` lists. -/
def toTerm (target : τ → Term) (branch : Branch τ) : Term :=
  call branch.mnemonic (match branch with
    | jumpIf _ label | goto label => [target label]
    | tableSwitch default low targets =>
      [target default, .number low.toInt, .list (targets.map target)]
    | lookupSwitch default cases =>
      [target default,
        .list (cases.map fun (key, label) => .list [.number key.toInt, target label])]
    | ret _ | athrow => [])

def caseOfTerm? (target : Term → Option τ) : Term → Option (Int32 × τ)
  | .list [key, label] => return (Int32.ofInt (← key.toInt?), ← target label)
  | _ => none

/-- Reads a listed branch whose targets `target` reads. -/
def ofTerm? (target : Term → Option τ) (term : Term) : Option (Branch τ) := do
  match ← term.toCall? with
  | ("athrow", []) => return athrow
  | (head, []) => return ret (← ReturnKind.all.find? (·.mnemonic == head))
  | ("goto", [label]) => return goto (← target label)
  | (head, [label]) => return jumpIf (← Test.all.find? (·.mnemonic == head)) (← target label)
  | ("tableswitch", [default, low, .list targets]) =>
    return tableSwitch (← target default) (Int32.ofInt (← low.toInt?)) (← targets.mapM target)
  | ("lookupswitch", [default, .list cases]) =>
    return lookupSwitch (← target default) (← cases.mapM (caseOfTerm? target))
  | _ => none

end Branch

def Label.toTerm (label : Label) : Term := .ofNat label.index

def Label.ofTerm? (term : Term) : Option Label := return ⟨← term.toNat?⟩

namespace Item

def toTerm : Item → Term
  | label mark => call "label" [mark.toTerm]
  | line number => call "line" [ofUInt16 number]
  | instruction step => step.toTerm
  | branch jump => jump.toTerm Label.toTerm

def ofTerm? (term : Term) : Option Item :=
  match term.toCall? with
  | some ("label", [mark]) => label <$> Label.ofTerm? mark
  | some ("line", [number]) => line <$> number.toUInt16?
  | _ => (instruction <$> Instruction.ofTerm? Symbolic.ofTerm? term)
    <|> (branch <$> Branch.ofTerm? Label.ofTerm? term)

/-- Reads listed items after the reversed items `seen`. An item under `rep` stands for itself that
often. -/
def listFrom (seen : List Item) : List Term → Option (List Item)
  | [] => some seen.reverse
  | .list [.text "rep", count, term] :: rest => do
    let item ← ofTerm? term
    listFrom (List.replicate (← count.toNat?) item ++ seen) rest
  | term :: rest => do
    let item ← ofTerm? term
    listFrom (item :: seen) rest

end Item

namespace Handler

def toTerm (handler : Handler) : Term :=
  .list [handler.start.toTerm, handler.stop.toTerm, handler.target.toTerm,
    match handler.catchType with
    | none => .none
    | some name => .text name.text]

def ofTerm? : Term → Option Handler
  | .list [start, stop, target, caught] => do
    let catchType ← match caught with
      | .none => some none
      | name => some <$> BinaryName.ofTerm? name
    return ⟨← Label.ofTerm? start, ← Label.ofTerm? stop, ← Label.ofTerm? target, catchType⟩
  | _ => none

end Handler

namespace VariableRange

def toTerm (range : VariableRange) : Term :=
  .list [range.start.toTerm, range.stop.toTerm, ofUInt16 range.nameIndex,
    ofUInt16 range.descriptorIndex, ofUInt16 range.slot, .flag range.inTypeTable]

def ofTerm? : Term → Option VariableRange
  | .list [start, stop, name, descriptor, slot, inTypeTable] =>
    return ⟨← Label.ofTerm? start, ← Label.ofTerm? stop, ← name.toUInt16?, ← descriptor.toUInt16?,
      ← slot.toUInt16?, ← inTypeTable.toFlag?⟩
  | _ => none

end VariableRange

end ClassWeave
