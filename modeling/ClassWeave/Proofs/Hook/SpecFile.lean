import ClassWeave.Proofs.Descriptor.RoundTrip
import ClassWeave.Proofs.Outcome
import ClassWeave.Proofs.Hook.SpecText

/-!
# Spec files are read back

Each directive is read as what it was written for. So the lines of a block leave the block behind that
they tell, the lines of several blocks one after the other, and a text with these lines, however it is
laid out, is read as their specs in order.
-/

namespace ClassWeave

/-- No dot is in a name, so each dot of the dotted form stands for a slash. -/
theorem BinaryName.ofDotted_toDotted (name : BinaryName) : ofDotted name.toDotted = .ok name := by
  have same : (name.toDotted.map fun c => if c == '.' then '/' else c) = name.text := by
    apply String.toList_inj.mp
    rw [toDotted, String.toList_map, String.toList_map, List.map_map]
    refine (List.map_congr_left ?_).trans (List.map_id _)
    intro c member
    by_cases slash : c = '/'
    · simp [slash]
    · have notDot : c ≠ '.' := by
        rintro rfl
        exact absurd (name.not_isReserved member slash) (by decide)
      simp [slash, notDot]
  rw [ofDotted, same, name.ofString_text]

namespace SpecLine

theorem slot?_slotWord (number : UInt16) : slot? (slotWord number) = some number := by
  have digits : ∀ c ∈ Nat.toDigits 10 number.toNat, c.isDigit = true := fun c member =>
    Nat.isDigit_of_mem_toDigits (by decide) (by decide) member
  have unsigned : ∀ rest, Nat.toDigits 10 number.toNat ≠ '+' :: rest := by
    intro rest signed
    have isDigit := digits '+' (by simp [signed])
    exact absurd isDigit (by decide)
  have value : (Nat.toDigits 10 number.toNat).foldl
      (fun value digit => 10 * value + (digit.toNat - 48)) 0 = number.toNat :=
    Nat.ofDigitChars_toDigits (by decide) (by decide)
  have small : number.toNat < 65536 := number.toNat_lt
  have nonempty : Nat.toDigits 10 number.toNat ≠ [] := Nat.toDigits_ne_nil
  unfold slot? slotWord
  rw [Nat.toList_repr]
  split
  · rename_i rest signed
    exact absurd signed (unsigned rest)
  · simp only [value]
    rw [if_neg, if_pos small, UInt16.ofNat_toNat]
    simpa [nonempty] using digits

theorem slot_slotWord (number : UInt16) : slot (slotWord number) = .ok number := by
  rw [slot, slot?_slotWord]

theorem mapM_slotWord (numbers : List UInt16) : (numbers.map slotWord).mapM slot = .ok numbers := by
  induction numbers with
  | nil => rfl
  | cons number numbers ih =>
    rw [List.map_cons, List.mapM_cons, slot_slotWord, ih]
    rfl

end SpecLine

theorem BinaryName.checkName_text (name : BinaryName) :
    SpecFault.checkName (ofString name.text) = .ok name := by
  rw [ofString_text]
  rfl

theorem UnqualifiedName.checkName_text (name : UnqualifiedName) :
    SpecFault.checkName (ofString name.text) = .ok name := by
  rw [ofString_text]
  rfl

theorem methodDescriptorOf_render (descriptor : MethodDescriptor) :
    methodDescriptorOf descriptor.render = .ok descriptor := by
  rw [methodDescriptorOf, parseDescriptor, MethodDescriptor.parse_render]
  rfl

theorem fieldTypeOf_render (type : FieldType) : fieldTypeOf type.render = .ok type := by
  rw [fieldTypeOf, parseDescriptor, FieldType.parse_render]
  rfl

theorem CallSite.ofTexts_words (call : CallSite) :
    ofTexts call.owner.text call.name.text call.descriptor.render = .ok call := by
  rw [ofTexts, BinaryName.checkName_text, UnqualifiedName.checkName_text,
    methodDescriptorOf_render]
  rfl

theorem InterfaceMethod.ofTexts_line (interface : InterfaceMethod) :
    ofTexts interface.owner.toDotted interface.name.text interface.descriptor.render =
      .ok interface := by
  rw [ofTexts, BinaryName.ofDotted_toDotted, UnqualifiedName.checkName_text,
    methodDescriptorOf_render]
  rfl

theorem Target.ofTexts_render (target : Target) (slots : List UInt16) :
    ofTexts target.name.text target.descriptor.render target.shape slots =
      .ok { target with argumentSlots := slots } := by
  rw [ofTexts, UnqualifiedName.checkName_text, methodDescriptorOf_render]
  rfl

namespace SpecLine

theorem fieldRef_texts (field : FieldRef) :
    fieldRef field.owner.text field.name.text field.type = .ok field := by
  rw [fieldRef, BinaryName.checkName_text, UnqualifiedName.checkName_text]
  rfl

/-- The words of a shape are read as this shape. -/
theorem shape_arguments {shape : TriggerShape} (expressible : shape.Expressible) :
    SpecLine.shape shape.keyword shape.arguments = .ok shape := by
  cases shape with
  | entry number =>
    simp only [TriggerShape.keyword, TriggerShape.arguments, SpecLine.shape]
    rw [slot_slotWord]
    rfl
  | entrySelect number ifTrue ifFalse =>
    obtain ⟨sameOwner, sameType⟩ := expressible
    have secondField := fieldRef_texts ifFalse
    rw [← sameOwner, ← sameType] at secondField
    simp only [TriggerShape.keyword, TriggerShape.arguments, SpecLine.shape]
    rw [fieldTypeOf_render, slot_slotWord]
    simp only [bind, Except.bind, fieldRef_texts, secondField]
    rfl
  | callBranch call | callResult call =>
    simp only [TriggerShape.keyword, TriggerShape.arguments, CallSite.words, SpecLine.shape]
    rw [call.ofTexts_words]
    rfl
  | aggregate call chunkOwner chunkMethod =>
    simp only [TriggerShape.keyword, TriggerShape.arguments, CallSite.words, SpecLine.shape,
      List.cons_append, List.nil_append]
    rw [call.ofTexts_words, BinaryName.checkName_text, UnqualifiedName.checkName_text]
    rfl
  | cache call field referenceClass =>
    have cacheField := fieldRef_texts field
    rw [show field.type = TriggerShape.cacheFieldType from expressible] at cacheField
    simp only [TriggerShape.keyword, TriggerShape.arguments, CallSite.words, SpecLine.shape,
      List.cons_append, List.nil_append]
    rw [call.ofTexts_words, cacheField, BinaryName.checkName_text]
    rfl

end SpecLine

namespace SpecReading

/-- Reads the words of a line, if it has any. -/
def readLine (reading : SpecReading) : List String → Except SpecFault SpecReading
  | [] => .ok reading
  | directive :: words => reading.readWords directive words

/-- Where all lines are read without fault, their numbers do not matter. -/
theorem readLines_ok {reading after : SpecReading} {lines : List (List Char)}
    (done : (lines.map lineWords).foldlM readLine reading = .ok after) (number : Nat) :
    reading.readLines number lines = .ok after := by
  induction lines generalizing reading number with
  | nil => exact done
  | cons line lines ih =>
    rw [List.map_cons, List.foldlM_cons] at done
    obtain ⟨middle, lineRead, done⟩ := Outcome.bind_ok.mp done
    unfold readLines
    cases words : lineWords line with
    | nil =>
      rw [words] at lineRead
      cases lineRead
      exact ih done (number + 1)
    | cons directive words' =>
      rw [words] at lineRead
      simp only
      rw [show reading.readWords directive words' = .ok middle from lineRead]
      exact ih done (number + 1)

/-- Lines without words change nothing. -/
theorem foldlM_filter (lines : List (List String)) (reading : SpecReading) :
    (lines.filter (· ≠ [])).foldlM readLine reading = lines.foldlM readLine reading := by
  induction lines generalizing reading with
  | nil => rfl
  | cons words lines ih =>
    cases words with
    | nil => exact ih reading
    | cons directive words =>
      rw [List.filter_cons_of_pos (by simp), List.foldlM_cons, List.foldlM_cons]
      simp only [ih]

/-- Only a class line goes beyond the block that is being read. -/
theorem readLine_addTo {block after : SpecBlock} {directive : String} {words : List String}
    (other : directive ≠ "class") (added : SpecLine.addTo block directive words = .ok after)
    (specs : List ClassSpec) :
    readLine ⟨some block, specs⟩ (directive :: words) = .ok ⟨some after, specs⟩ := by
  simp only [readLine, readWords]
  rw [if_neg other, added]
  rfl

theorem readLine_class {reading : SpecReading} {specs : List ClassSpec}
    (before : reading.finishBlock = .ok specs) (className : BinaryName) :
    reading.readLine ["class", className.text] = .ok ⟨some (.start className), specs⟩ := by
  simp only [readLine, readWords]
  rw [if_true, before, className.checkName_text]
  rfl

variable {className : BinaryName} {interface : Option InterfaceLine} {specs : List ClassSpec}

/-- The two lines of a target put this target in front of those before it. -/
theorem readLine_target {target : Target} (expressible : target.shape.Expressible)
    (earlier : List Target) :
    target.lines.foldlM readLine ⟨some ⟨className, interface, earlier⟩, specs⟩ =
      .ok ⟨some ⟨className, interface, target :: earlier⟩, specs⟩ := by
  have targetRead : SpecLine.addTo ⟨className, interface, earlier⟩ "target"
      (target.name.text :: target.descriptor.render :: target.shape.keyword ::
        target.shape.arguments) =
      .ok ⟨className, interface, { target with argumentSlots := [] } :: earlier⟩ := by
    simp only [SpecLine.addTo]
    rw [SpecLine.shape_arguments expressible]
    simp only [bind, Except.bind, target.ofTexts_render []]
    rfl
  have argumentsRead : SpecLine.addTo
      ⟨className, interface, { target with argumentSlots := [] } :: earlier⟩ "args"
      (target.argumentSlots.map slotWord) = .ok ⟨className, interface, target :: earlier⟩ := by
    simp only [SpecLine.addTo]
    rw [SpecLine.mapM_slotWord]
    rfl
  rw [Target.lines, List.foldlM_cons, readLine_addTo (by decide) targetRead]
  simp only [bind, Except.bind]
  rw [List.foldlM_cons, readLine_addTo (by decide) argumentsRead]
  rfl

theorem readLine_targets {targets : List Target}
    (expressible : ∀ target ∈ targets, target.shape.Expressible) (earlier : List Target) :
    (targets.flatMap Target.lines).foldlM readLine ⟨some ⟨className, interface, earlier⟩, specs⟩ =
      .ok ⟨some ⟨className, interface, targets.reverse ++ earlier⟩, specs⟩ := by
  induction targets generalizing earlier with
  | nil => rfl
  | cons target targets ih =>
    obtain ⟨first, expressible⟩ := List.forall_mem_cons.mp expressible
    rw [List.flatMap_cons, List.foldlM_append, readLine_target first]
    simp only [bind, Except.bind]
    rw [ih expressible]
    simp

end SpecReading

/-- Is a block accepted as a spec, and do its lines tell all of it? No name or descriptor in it may
hold a blank or a hash mark. -/
structure ClassSpec.Expressible (block : ClassSpec) : Prop where
  accepted : HookSpec.ofParts block.spec.interface block.spec.targets = .ok block.spec
  shapes : ∀ target ∈ block.spec.targets, target.shape.Expressible
  plain : ∀ words ∈ block.lines, ∀ word ∈ words, IsPlain word

namespace SpecReading

/-- The lines of a block complete what was read before and leave a block that is completed to this
one. -/
theorem readLine_block {block : ClassSpec} (expressible : block.Expressible)
    {reading : SpecReading} {specs : List ClassSpec} (before : reading.finishBlock = .ok specs) :
    ∃ after, block.lines.foldlM readLine reading = .ok after ∧
      after.finishBlock = .ok (block :: specs) := by
  let line : InterfaceLine := ⟨block.spec.interface.owner.toDotted, block.spec.interface.name.text,
    block.spec.interface.descriptor.render⟩
  refine ⟨⟨some ⟨block.className, some line, block.spec.targets.reverse ++ []⟩, specs⟩, ?_, ?_⟩
  · rw [ClassSpec.lines, List.foldlM_cons]
    rw [readLine_class before]
    exact readLine_targets expressible.shapes []
  · simp only [finishBlock, SpecBlock.finish, line]
    rw [InterfaceMethod.ofTexts_line, List.append_nil, List.reverse_reverse]
    simp only [bind, Except.bind, expressible.accepted]
    rfl

theorem readLine_blocks {blocks : List ClassSpec}
    (expressible : ∀ block ∈ blocks, block.Expressible) {reading : SpecReading}
    {specs : List ClassSpec} (before : reading.finishBlock = .ok specs) :
    ∃ after, (blocks.flatMap ClassSpec.lines).foldlM readLine reading = .ok after ∧
      after.finishBlock = .ok (blocks.reverse ++ specs) := by
  induction blocks generalizing reading specs with
  | nil => exact ⟨reading, rfl, before⟩
  | cons block blocks ih =>
    obtain ⟨first, expressible⟩ := List.forall_mem_cons.mp expressible
    obtain ⟨middle, blockRead, finished⟩ := readLine_block first before
    obtain ⟨after, blocksRead, finished⟩ := ih expressible finished
    refine ⟨after, ?_, ?_⟩
    · rw [List.flatMap_cons, List.foldlM_append, blockRead]
      exact blocksRead
    · simpa using finished

end SpecReading

section Nonempty

theorem BinaryName.text_ne_empty (name : BinaryName) : name.text ≠ "" := by
  intro empty
  have valid := name.valid
  rw [empty] at valid
  exact absurd valid (by decide)

theorem UnqualifiedName.text_ne_empty (name : UnqualifiedName) : name.text ≠ "" := by
  intro empty
  have valid := name.valid
  rw [empty] at valid
  exact absurd valid (by decide)

theorem BinaryName.toDotted_ne_empty (name : BinaryName) : name.toDotted ≠ "" := by
  have nonempty := name.text_ne_empty
  simpa [toDotted, ← String.toList_eq_nil_iff] using nonempty

theorem MethodDescriptor.render_ne_empty (descriptor : MethodDescriptor) :
    descriptor.render ≠ "" := by
  simp [render, chars, ← String.toList_eq_nil_iff]

theorem FieldType.render_ne_empty (type : FieldType) : type.render ≠ "" := by
  obtain ⟨c, tail, spelt, -⟩ := Descriptor.fieldType_chars_cons type
  simp [render, spelt, ← String.toList_eq_nil_iff]

theorem slotWord_ne_empty (slot : UInt16) : slotWord slot ≠ "" := by
  simp [slotWord, ← String.toList_eq_nil_iff]

theorem TriggerShape.arguments_ne_empty (shape : TriggerShape) :
    ∀ word ∈ shape.arguments, word ≠ "" := by
  cases shape <;>
    simp [arguments, CallSite.words, slotWord_ne_empty, BinaryName.text_ne_empty,
      UnqualifiedName.text_ne_empty, MethodDescriptor.render_ne_empty, FieldType.render_ne_empty]

theorem Target.words_ne_empty (target : Target) :
    ∀ words ∈ target.lines, ∀ word ∈ words, word ≠ "" := by
  have keyword : target.shape.keyword ≠ "" := by
    cases target.shape <;> simp [TriggerShape.keyword]
  intro words isLine word member
  rcases List.mem_pair.mp isLine with rfl | rfl
  · simp only [List.mem_cons] at member
    rcases member with rfl | rfl | rfl | rfl | member
    · decide
    · exact target.name.text_ne_empty
    · exact target.descriptor.render_ne_empty
    · exact keyword
    · exact target.shape.arguments_ne_empty word member
  · rcases List.mem_cons.mp member with rfl | member
    · decide
    · obtain ⟨slot, -, rfl⟩ := List.mem_map.mp member
      exact slotWord_ne_empty slot

theorem ClassSpec.words_ne_empty (block : ClassSpec) :
    ∀ words ∈ block.lines, ∀ word ∈ words, word ≠ "" := by
  intro words isLine
  simp only [lines, List.mem_cons] at isLine
  rcases isLine with rfl | rfl | isLine
  · simp [BinaryName.text_ne_empty]
  · simp [InterfaceMethod.line, BinaryName.toDotted_ne_empty, UnqualifiedName.text_ne_empty,
      MethodDescriptor.render_ne_empty]
  · obtain ⟨target, -, isLine⟩ := List.mem_flatMap.mp isLine
    exact target.words_ne_empty words isLine

end Nonempty

/-- Blocks that are written with any layout are read as their classes and specs, in order. -/
theorem SpecFile.parse_text {blocks : List ClassSpec} {lines : List LineLayout}
    (expressible : ∀ block ∈ blocks, block.Expressible)
    (written : (lines.map LineLayout.words).filter (· ≠ []) = blocks.flatMap ClassSpec.lines) :
    parse (LineLayout.text lines) = .ok blocks := by
  have isWord : ∀ line ∈ lines, ∀ word ∈ line.words, word ≠ "" ∧ IsPlain word := by
    intro line isLine word member
    have hasWords : line.words ∈ (lines.map LineLayout.words).filter (· ≠ []) :=
      List.mem_filter.mpr ⟨List.mem_map_of_mem isLine, by
        simpa using List.ne_nil_of_mem member⟩
    rw [written] at hasWords
    obtain ⟨block, isBlock, isLine⟩ := List.mem_flatMap.mp hasWords
    exact ⟨block.words_ne_empty _ isLine word member,
      (expressible block isBlock).plain _ isLine word member⟩
  obtain ⟨after, done, finished⟩ :=
    SpecReading.readLine_blocks expressible (show SpecReading.finishBlock ⟨none, []⟩ = .ok [] from rfl)
  rw [← written, ← LineLayout.words_text isWord, SpecReading.foldlM_filter] at done
  rw [parse, SpecReading.readLines_ok done 1]
  simp only [bind, Except.bind, finished]
  simp [pure, Except.pure]

def usageBlock : ClassSpec :=
  ⟨⟨"app/Usage", by decide⟩,
    ⟨⟨"app/IHook", by decide⟩, ⟨"intercept", by decide⟩, ⟨[.base .long], some (.object .object)⟩⟩,
    [⟨⟨"lookup", by decide⟩, ⟨[.base .long], some (.object .object)⟩,
      .cache ⟨⟨"app/Usage", by decide⟩, ⟨"find", by decide⟩, ⟨[], some (.object .object)⟩⟩
        ⟨⟨"app/Usage", by decide⟩, ⟨"kept", by decide⟩, .object .reference⟩
        ⟨"java/lang/ref/WeakReference", by decide⟩, [1]⟩]⟩

def gateBlock : ClassSpec :=
  ⟨⟨"app/Gate", by decide⟩, ⟨⟨"app/IOpen", by decide⟩, ⟨"open", by decide⟩, ⟨[], some (.base .boolean)⟩⟩,
    [⟨⟨"state", by decide⟩, ⟨[], some (.object ⟨"app/State", by decide⟩)⟩,
      .entrySelect 0
        ⟨⟨"app/State", by decide⟩, ⟨"Open", by decide⟩, .object ⟨"app/State", by decide⟩⟩
        ⟨⟨"app/State", by decide⟩, ⟨"Shut", by decide⟩, .object ⟨"app/State", by decide⟩⟩, []⟩]⟩

/-- Two blocks in a file: a comment, an indented block, a line without words, and a block with line
ends of two characters. -/
def hookLines : List LineLayout :=
  let remark : LineLayout :=
    { LineLayout.spaced [] [' '] [] (by decide) (by decide) [] with
      comment := some [' ', 'h', 'o', 'o', 'k', 's']
      comment_line := by rintro _ ⟨⟩; decide }
  let indented : List String → LineLayout :=
    .spaced ['\t'] [' ', ' '] [] (by decide) (by decide)
  let carried : List String → LineLayout := .spaced [] [' '] ['\r'] (by decide) (by decide)
  remark :: usageBlock.lines.map indented ++ carried [] :: gateBlock.lines.map carried

example : LineLayout.text hookLines =
    "# hooks\n\tclass  app/Usage\n\tinterface  app.IHook  intercept  (J)Ljava/lang/Object;\n" ++
    "\ttarget  lookup  (J)Ljava/lang/Object;  cache  app/Usage  find  ()Ljava/lang/Object;" ++
    "  app/Usage  kept  java/lang/ref/WeakReference\n\targs  1\n\r\n" ++
    "class app/Gate\r\ninterface app.IOpen open ()Z\r\n" ++
    "target state ()Lapp/State; entry-select 0 app/State Open Shut Lapp/State;\r\nargs\r" := by
  decide +kernel

theorem usageBlock_expressible : usageBlock.Expressible where
  accepted := by cbv
  shapes := by
    intro target member
    rw [List.mem_singleton.mp member]
    rfl
  plain := by decide +kernel

theorem gateBlock_expressible : gateBlock.Expressible where
  accepted := by cbv
  shapes := by
    intro target member
    rw [List.mem_singleton.mp member]
    exact ⟨rfl, rfl⟩
  plain := by decide +kernel

theorem hookLines_parsed : (∀ block ∈ [usageBlock, gateBlock], block.Expressible) ∧
    (hookLines.map LineLayout.words).filter (· ≠ []) =
      [usageBlock, gateBlock].flatMap ClassSpec.lines ∧
    SpecFile.parse (LineLayout.text hookLines) = .ok [usageBlock, gateBlock] := by
  have expressible : ∀ block ∈ [usageBlock, gateBlock], block.Expressible := by
    intro block member
    rcases List.mem_pair.mp member with rfl | rfl
    · exact usageBlock_expressible
    · exact gateBlock_expressible
  have written : (hookLines.map LineLayout.words).filter (· ≠ []) =
      [usageBlock, gateBlock].flatMap ClassSpec.lines := by decide +kernel
  exact ⟨expressible, written, SpecFile.parse_text expressible written⟩

end ClassWeave
