import ClassWeave.ClassFile.Basic
import ClassWeave.Code.Assembly
import ClassWeave.Code.Disassembly
import ClassWeave.Proofs.Constant.Growth

/-!
# Code and growing pools

Assembling a body only adds constants, so what is spelt out by other code stays the same: a body
that was read from code is read from it again when the table has grown.
-/

namespace ClassWeave

open ConstantTable (Stable)
open PoolM (Grows Interning)

namespace Attribute

theorem name_stable (attr : Attribute) : Stable attr.name := Stable.utf8 _

end Attribute

namespace Member

theorem name_stable (member : Member) : Stable member.name := Stable.utf8 _

theorem descriptor_stable (member : Member) : Stable member.descriptor :=
  (Stable.utf8 _).bind fun _ => Stable.const _

theorem codePosition?_stable (member : Member) : Stable member.codePosition? := by
  have positionFrom (attributes : List Attribute) (position : Nat) :
      Stable fun table => positionFrom table .code position attributes := by
    induction attributes generalizing position with
    | nil => exact Stable.const _
    | cons attr rest ih =>
      refine attr.name_stable.bind fun name => ?_
      split
      · exact Stable.const _
      · exact ih _
  exact positionFrom member.attributes 0

end Member

namespace Instruction

variable {ω ω' : OperandKind → Type}

/-- Spelling out the operand is all that depends on the table. -/
theorem mapM_stable {change : ConstantTable → (kind : OperandKind) → ω kind → Except Fault (ω' kind)}
    (each : ∀ kind operand, Stable (change · kind operand)) (instruction : Instruction ω) :
    Stable fun table => instruction.mapM (change table) := by
  cases instruction with
  | loadConstant | loadWideConstant | field | invoke | invokeDynamic | onClass | newMultiArray =>
    exact (each _ _).map _
  | _ => exact Stable.const _

theorem mapM_interning {change : (kind : OperandKind) → ω kind → PoolM (ω' kind)}
    (each : ∀ kind operand, Interning (change kind operand)) (instruction : Instruction ω) :
    Interning (instruction.mapM change) := by
  cases instruction with
  | loadConstant | loadWideConstant | field | invoke | invokeDynamic | onClass | newMultiArray =>
    exact (each _ _).map _
  | _ => exact .pure _

end Instruction

namespace Disassembly

theorem readDebugTables_stable (boundaries : Boundaries) (size : Nat) (attributes : List Attribute)
    (tables : DebugTables) :
    Stable fun constants => readDebugTables boundaries size constants attributes tables := by
  induction attributes generalizing tables with
  | nil => exact Stable.const _
  | cons attr rest ih =>
    refine attr.name_stable.bind fun name => ?_
    split
    · exact (Stable.const _).bind fun entries => ih _
    · split
      · exact (Stable.const _).bind fun entries => ih _
      · split
        · exact (Stable.const _).bind fun entries => ih _
        · exact ih _

theorem itemOf_stable (labels : Std.HashMap Nat Label) (instruction : RawInstruction) :
    Stable (itemOf labels · instruction) := by
  cases instruction with
  | straight instruction => exact (Instruction.mapM_stable Stable.operand instruction).map _
  | branch branch => exact Stable.const _

theorem itemsOf_stable (labels : Std.HashMap Nat Label) (lines : Std.HashMap Nat (List UInt16))
    (seen : List Item) (instructions : List (Nat × RawInstruction)) :
    Stable fun constants => itemsOf labels lines constants seen instructions := by
  induction instructions generalizing seen with
  | nil => exact Stable.const _
  | cons first rest ih => exact (itemOf_stable labels first.2).bind fun item => ih _

theorem handlerOf_stable (labels : Std.HashMap Nat Label) (entry : ExceptionEntry) :
    Stable (handlerOf labels · entry) := by
  unfold handlerOf
  split
  · exact Stable.const _
  · exact ((Stable.binaryName _).map _).bind fun catchType => Stable.const _

theorem handlersOf_stable (labels : Std.HashMap Nat Label) (entries : List ExceptionEntry) :
    Stable fun constants => entries.mapM (handlerOf labels constants) := by
  have each := handlerOf_stable labels
  exact Stable.mapM each entries

end Disassembly

open Disassembly in
theorem Body.ofCode_stable (code : CodeAttribute) : Stable (Body.ofCode code) :=
  (Stable.const _).bind fun _ => (Stable.const _).bind fun _ => (Stable.const _).bind fun _ =>
    (readDebugTables_stable _ _ _ _).bind fun _ => (itemsOf_stable _ _ _ _).bind fun _ =>
      (handlersOf_stable _ _).bind fun _ => Stable.const _

namespace PoolM

theorem interning_attributeOf (kind : AttributeKind) (info : Bytes) :
    Interning (attributeOf kind info) :=
  (interning_utf8 _).bind fun _ => .pure _

theorem interning_storedType (offsetOf : Nat → UInt16) (type : VType) :
    Interning (storedType offsetOf type) := by
  cases type with
  | object type => exact (interning_className _).bind fun _ => .pure _
  | _ => exact .pure _

end PoolM

namespace Assembly

open PoolM

theorem part_interning (typing : Typing) (item : Item) (position : Nat) :
    Interning (part typing item position) := by
  unfold part
  simp only
  split
  · split
    · exact (Instruction.mapM_interning interning_operand _).bind fun _ => .pure _
    · exact .pure _
  · exact .pure _

theorem exceptionEntries_grows (layout : Layout) (dead : List Span) (handler : Handler) :
    Grows (exceptionEntries layout dead handler) := by
  refine (grows_lift _).bind fun start => (grows_lift _).bind fun stop =>
    (grows_lift _).bind fun target => ?_
  split
  · exact (grows_pure _).bind fun _ => grows_pure _
  · exact (interning_className _).grows.bind fun _ => grows_pure _

theorem variableDraft_grows (layout : Layout) (range : VariableRange) :
    Grows (variableDraft layout range) := by
  refine (grows_lift _).bind fun start => (grows_lift _).bind fun stop => ?_
  simp only
  split
  · exact (grows_throw _).bind fun _ => (grows_lookup _).bind fun _ => grows_pure _
  · exact (grows_lookup _).bind fun _ => grows_pure _

theorem stored_interning (frame : VFrame) (offsetOf : Nat → UInt16) :
    Interning (frame.stored offsetOf) :=
  (interning_mapM (interning_storedType offsetOf) _).bind fun _ =>
    (interning_mapM (interning_storedType offsetOf) _).bind fun _ => .pure _

theorem stackMapEntries_interning (typing : Typing) (itemOffset : Nat → UInt16)
    (deadFrame : StoredFrame) (seen : List StackMapEntry) (previous : Option Nat)
    (previousFrame : StoredFrame) (sources : List (Nat × FrameSource)) :
    Interning
      (stackMapEntries typing itemOffset deadFrame seen previous previousFrame sources) := by
  induction sources generalizing seen previous previousFrame with
  | nil => exact .pure _
  | cons first rest ih =>
    obtain ⟨offset, source⟩ := first
    unfold stackMapEntries
    extract_lets goOn
    have onward (frame : Option StoredFrame) : Interning (goOn frame) := by
      cases frame with
      | some frame => exact ih _ _ _
      | none => exact ih _ _ _
    cases source with
    | dead => exact (Interning.pure _).bind onward
    | item position =>
      simp only
      split
      · exact ((stored_interning _ _).map _).bind onward
      · exact (Interning.pure _).bind onward

theorem stackMap_interning (context : AssemblyContext) (typing : Typing) (layout : Layout)
    (sources : List (Nat × FrameSource)) : Interning (stackMap context typing layout sources) :=
  (stored_interning _ _).bind fun _ => (interning_storedType _ _).bind fun _ =>
    (stackMapEntries_interning _ _ _ _ _ _ _).bind fun _ => interning_attributeOf _ _

theorem tableUnlessEmpty_interning {α : Type} {table : List α → PoolM Attribute}
    (each : ∀ entries, Interning (table entries)) (entries : List α) :
    Interning (tableUnlessEmpty table entries) := by
  unfold tableUnlessEmpty
  split
  · exact .pure _
  · exact (each _).bind fun _ => .pure _

theorem lineTable_interning (entries : List LineEntry) :
    Interning (tableUnlessEmpty PoolM.lineNumberTable entries) :=
  tableUnlessEmpty_interning (fun _ => interning_attributeOf _ _) entries

theorem variableTable_interning (kind : AttributeKind) (entries : List VariableEntry) :
    Interning (tableUnlessEmpty (PoolM.variableTable kind) entries) :=
  tableUnlessEmpty_interning (fun _ => interning_attributeOf _ _) entries

end Assembly

open Assembly PoolM in
/-- The constants that code needs are added, and nothing else happens to the pool. -/
theorem Body.assemble_grows (body : Body) (context : AssemblyContext) :
    Grows (body.assemble context) := by
  refine (grows_lift _).bind fun typing =>
    (interning_mapM (fun _ => part_interning _ _ _) _).grows.bind fun parts =>
      (grows_lift _).bind fun layout => ?_
  extract_lets placed dead maxStack goOn
  have goesOn (checked : Unit) : Grows (goOn checked) := by
    refine (grows_lift _).bind fun jumps =>
      (grows_mapM (exceptionEntries_grows _ _) _).bind fun exceptions =>
        (grows_lift _).bind fun code => (lineTable_interning _).grows.bind fun lines =>
          (grows_mapM (variableDraft_grows _) _).bind fun drafts =>
            (variableTable_interning _ _).grows.bind fun localVariables =>
              (variableTable_interning _ _).grows.bind fun variableTypes => ?_
    simp only
    split
    · exact ((stackMap_interning _ _ _ _).grows.map _).bind fun _ => grows_pure _
    · exact (grows_pure _).bind fun _ => grows_pure _
  split
  · exact (grows_throw _).bind goesOn
  · exact goesOn ()

end ClassWeave
