import ClassWeave.Proofs.Hook.Answers
import ClassWeave.Proofs.Hook.Detour

/-!
# Hooks of accepted specs are well typed

What the checks on a spec are good for: each of its targets gets a hook that can be put wherever the
locals hold what it reads. Whether references are of the right classes is another matter, and so is
the type of the field that cached answers go into, which must be a reference and is not checked.
-/

namespace ClassWeave

open FrameM VFrame

namespace HookSpec

theorem checkTargets_fault {interface : InterfaceMethod}
    {seen : List (UnqualifiedName × MethodDescriptor)} {targets : List Target}
    (checked : checkTargets interface seen targets = .ok ()) {target : Target}
    (member : target ∈ targets) : target.fault? interface = none := by
  fun_induction checkTargets interface seen targets with
  | case1 => cases member
  | case2 => cases checked
  | case3 => cases checked
  | case4 seen first rest key new accepted ih =>
    rcases List.mem_cons.mp member with rfl | later
    · exact accepted
    · exact ih checked later

/-- The targets of a spec can call its interface method. -/
theorem ofParts_fault {interface : InterfaceMethod} {targets : List Target} {spec : HookSpec}
    (accepted : ofParts interface targets = .ok spec) {target : Target}
    (member : target ∈ spec.targets) : target.fault? spec.interface = none := by
  unfold ofParts at accepted
  split at accepted
  · cases accepted
  · cases targets with
    | nil => cases accepted
    | cons first rest =>
      obtain ⟨_, checked, same⟩ := Outcome.bind_ok.mp accepted
      cases Outcome.pure_ok.mp same
      exact checkTargets_fault checked member

end HookSpec

theorem HookFields.of_typed {thisClass : BinaryName} {interface : InterfaceMethod}
    {fields : HookFields} (named : HookFields.of thisClass interface = .ok fields) :
    HookCall.FieldsTyped fields := by
  obtain ⟨_, -, later⟩ := Outcome.bind_ok.mp named
  obtain ⟨_, -, same⟩ := Outcome.bind_ok.mp later
  cases Outcome.pure_ok.mp same
  exact ⟨rfl, rfl⟩

namespace Target

/-- Answers are cached in a field of a reference type. -/
def CachesReference (target : Target) : Prop :=
  ∀ call field referenceClass, target.shape = .cache call field referenceClass →
    isReference (some field.type) = true

/-- Returns as the target does, whatever else a method is. -/
def ReturnsIn (target : Target) (method : MethodContext) : Prop :=
  method.descriptor.result = target.descriptor.result

end Target

namespace HookSite

/-- The locals of a frame are what a hook reads: the object, the arguments, and the receiver if it
has a field to set. There is room for the locals that the hook needs for itself. -/
structure FitsIn (interface : InterfaceMethod) (target : Target) (slot : UInt16) (frame : VFrame) :
    Prop where
  spaced : Spaced frame.locals
  object : ∃ type, frame.locals[slot.toNat]? = some type ∧ type.isReference = true
  arguments : List.Forall₂
    (fun parameter (argumentSlot : UInt16) =>
      frame.locals[argumentSlot.toNat]? = some (VType.ofFieldType parameter))
    interface.descriptor.parameters target.argumentSlots
  receiver : ∀ call field referenceClass, target.shape = .cache call field referenceClass →
    ∃ type, frame.locals[0]? = some type ∧ type.isReference = true
  scratch : hasScratchLocals target.shape slot = true

/-- The frame with which control comes out of a hook after an answer: only if the answer takes the
place of the object. -/
def through (interface : InterfaceMethod) (target : Target) (slot : UInt16) (frame : VFrame) :
    Option VFrame :=
  match target.shape, interface.descriptor.result with
  | .callResult _, some result =>
    some ⟨frame.locals.set slot.toNat (VType.ofFieldType result), frame.stack⟩
  | _, _ => none

variable {interface : InterfaceMethod} {target : Target} {slot : UInt16} {frame : VFrame}
  {method : MethodContext} {base : Nat}

theorem reference_type {type : FieldType} (reference : Target.isReference (some type) = true) :
    ∃ name, type = .ref name := by
  match type with
  | .ref name => exact ⟨name, rfl⟩
  | .base base => cases base <;> cases reference

theorem reference_answer {answer : Option FieldType} (reference : Target.isReference answer = true) :
    ∃ type, answer = some (.ref type) := by
  match answer with
  | none => cases reference
  | some _ =>
    obtain ⟨type, rfl⟩ := reference_type reference
    exact ⟨type, rfl⟩

theorem element_answer {answer : Option FieldType} (isArray : Target.isObjectArray answer = true) :
    ∃ array element, answer = some (.ref array) ∧ array.elementType? = some (.ref element) := by
  match answer, isArray with
  | some (.ref (.array 0 (.object name))), _ => exact ⟨_, .object name, rfl, rfl⟩
  | some (.ref (.array (extra + 1) (.object name))), _ =>
    exact ⟨_, .array extra (.object name), rfl, rfl⟩

/-- Every use of an answer is checked with some frames at its two labels. -/
theorem useAnswer_checks (base : Nat) (accepted : target.fault? interface = none)
    (caches : target.CachesReference) (fits : FitsIn interface target slot frame)
    (returns : target.ReturnsIn method) (fresh : Label) :
    ∃ first second : VFrame, ∀ marks : Label → Option VFrame, marks fresh = some first →
      marks fresh.next = some second →
        Checks method marks base (useAnswer target slot fresh)
          (some ⟨frame.locals,
            (interface.descriptor.result.map VType.ofFieldType).toList ++ frame.stack⟩)
          (through interface target slot frame) := by
  have count := fits.arguments.length_eq
  obtain ⟨object, found, objectReference⟩ := fits.object
  cases shape : target.shape with
  | entry | callBranch =>
    have same : ReturnKind.of interface.descriptor.result = ReturnKind.of target.descriptor.result := by
      simpa [Target.fault?, shape, count] using accepted
    refine ⟨frame, frame, fun marks _ _ => ?_⟩
    simp only [useAnswer, through, shape]
    rw [← returns] at same ⊢
    exact .ret (executeBranch_ret same) .nil
  | entrySelect _ ifTrue ifFalse =>
    have boolean : interface.descriptor.result = some (.base .boolean) := by
      by_contra other
      simp [Target.fault?, shape, count, other] at accepted
    obtain ⟨same, selected, result⟩ : ifTrue.type = ifFalse.type ∧
        Target.isReference (some ifTrue.type) = true ∧
          Target.isReference target.descriptor.result = true := by
      simpa [Target.fault?, shape, count, boolean] using accepted
    refine ⟨frame, ⟨frame.locals, VType.ofFieldType ifTrue.type :: frame.stack⟩,
      fun marks falseMarked pickedMarked => ?_⟩
    simp only [useAnswer, through, shape, boolean]
    exact returnSelected_checks same selected (returns ▸ result) falseMarked pickedMarked
  | callResult call =>
    obtain ⟨answer, _⟩ : Target.isReference interface.descriptor.result = true ∧
        Target.isReference call.descriptor.result = true := by
      simpa [Target.fault?, shape, count] using accepted
    obtain ⟨type, isType⟩ := reference_answer answer
    refine ⟨frame, frame, fun marks _ _ => ?_⟩
    simp only [useAnswer, through, shape, isType]
    rw [← storeLocal_eq_set found (VType.width_of_isReference objectReference) rfl
      (width_before fits.spaced found objectReference)]
    exact .instruction (execute_storeReference rfl) .nil
  | aggregate call chunkOwner chunkMethod =>
    obtain ⟨answer, result⟩ : Target.isObjectArray interface.descriptor.result = true ∧
        Target.isReference target.descriptor.result = true := by
      simpa [Target.fault?, shape, count] using accepted
    have scratch : slot.toNat + 3 ≤ 65535 := by
      simpa [hasScratchLocals, shape] using fits.scratch
    obtain ⟨array, element, isArray, isElement⟩ := element_answer answer
    obtain ⟨joined, checks⟩ := returnJoined_checks base isElement scratch chunkOwner chunkMethod
      fresh fresh.next (returns ▸ result)
    refine ⟨joined, joined, fun marks bodyMarked conditionMarked => ?_⟩
    simp only [useAnswer, through, shape, isArray]
    exact checks marks bodyMarked conditionMarked
  | cache call field referenceClass =>
    obtain ⟨answer, result⟩ : Target.isReference interface.descriptor.result = true ∧
        Target.isReference target.descriptor.result = true := by
      simpa [Target.fault?, shape, count] using accepted
    obtain ⟨type, isType⟩ := reference_answer answer
    obtain ⟨fieldType, isFieldType⟩ := reference_type (caches call field referenceClass shape)
    refine ⟨frame, frame, fun marks _ _ => ?_⟩
    simp only [useAnswer, through, shape, isType]
    exact returnCached_checks isFieldType referenceClass rfl
      (fits.receiver call field referenceClass shape) (returns ▸ result)

/-- The arguments come to lie on the stack in order, so the last one is on top. -/
theorem loadArguments_checks {marks : Label → Option VFrame} {locals stack : List VType}
    {parameters : List FieldType} {slots : List UInt16}
    (found : List.Forall₂ (fun parameter (slot : UInt16) =>
      locals[slot.toNat]? = some (VType.ofFieldType parameter)) parameters slots) :
    Checks method marks base
      (((parameters.map ValueMarshal.of).zip slots).map
        fun (argument, slot) => step (loadArgument argument slot))
      (some ⟨locals, stack⟩)
      (some ⟨locals, parameters.reverse.map VType.ofFieldType ++ stack⟩) := by
  induction found generalizing base stack with
  | nil => exact .nil
  | @cons parameter slot parameters slots first _ ih =>
    rw [List.reverse_cons, List.map_append, List.append_assoc]
    refine .instruction ?_ ih
    cases parameter with
    | ref type => exact execute_loadReference first rfl
    | base type => cases type <;> exact execute_loadPrimitive rfl first

/-- The frames at the three labels of a hook, the one behind it first. -/
def marking (fresh : Label) (skipped first second : VFrame) : Label → Option VFrame := fun label =>
  if label = fresh then some skipped
  else if label = fresh.next then some first
  else if label = fresh.next.next then some second
  else none

theorem next_ne (label : Label) : label.next ≠ label := by
  intro same
  exact absurd (congrArg Label.index same) (Nat.succ_ne_self _)

theorem next_next_ne (label : Label) : label.next.next ≠ label := by
  intro same
  have index := congrArg Label.index same
  simp only [Label.next] at index
  omega

/-- The body of a hook on its own. -/
def alone (call : HookCall) (target : Target) (slot : UInt16) (fresh : Label) : Body :=
  { Body.empty with items := items call target slot fresh }

/-- The jumps of a use lead to labels of its own. -/
theorem useAnswer_branches {fresh : Label} {jump : Branch Label}
    (member : .branch jump ∈ useAnswer target slot fresh) :
    (∃ kind, jump = .ret kind) ∨
      ∃ label, jump.targets = [label] ∧ .label label ∈ useAnswer target slot fresh := by
  cases shape : target.shape with
  | callResult => simp [useAnswer, shape, step] at member
  | entry | callBranch =>
    exact .inl ⟨ReturnKind.of target.descriptor.result, by simpa [useAnswer, shape] using member⟩
  | cache =>
    exact .inl ⟨.reference, by simpa [useAnswer, shape, returnCached, step] using member⟩
  | entrySelect _ ifTrue ifFalse =>
    simp only [useAnswer, shape] at member ⊢
    have jumps : jump = .jumpIf (.zero .eq) fresh ∨ jump = .goto fresh.next ∨
        jump = .ret .reference := by
      simpa [returnSelected, step] using member
    rcases jumps with rfl | rfl | rfl
    · exact .inr ⟨fresh, rfl, by simp [returnSelected]⟩
    · exact .inr ⟨fresh.next, rfl, by simp [returnSelected]⟩
    · exact .inl ⟨.reference, rfl⟩
  | aggregate _ chunkOwner chunkMethod =>
    simp only [useAnswer, shape] at member ⊢
    have jumps : jump = .goto fresh.next ∨ jump = .jumpIf (.ints .lt) fresh ∨
        jump = .ret .reference := by
      simpa [returnJoined, step] using member
    rcases jumps with rfl | rfl | rfl
    · exact .inr ⟨fresh.next, rfl, by simp [returnJoined]⟩
    · exact .inr ⟨fresh, rfl, by simp [returnJoined]⟩
    · exact .inl ⟨.reference, rfl⟩

/-- The jumps of a hook lead to labels of its own. -/
theorem branches_closed {call : HookCall} {fresh : Label} {jump : Branch Label}
    (member : .branch jump ∈ test call slot fresh ++ consult call target slot fresh) :
    (∃ kind, jump = .ret kind) ∨
      ∃ label, jump.targets = [label] ∧ .label label ∈ items call target slot fresh := by
  have among : jump = .jumpIf (.zero .eq) fresh ∨
      .branch jump ∈ useAnswer target slot fresh.next := by
    simpa [test, consult, step, HookCall.guard, HookCall.items] using member
  rcases among with rfl | used
  · exact .inr ⟨fresh, rfl, by simp [items, HookCall.landing]⟩
  · rcases useAnswer_branches used with returns | ⟨label, target, placed⟩
    · exact .inl returns
    · refine .inr ⟨label, target, ?_⟩
      simp only [items, List.mem_append]
      exact .inl (.inr placed)

/-- What comes before the use of the answer: the test, the arguments and the call. -/
def asking (call : HookCall) (target : Target) (slot : UInt16) (skip : Label) : List Item :=
  test call slot skip ++ [step (.load .reference slot)]
    ++ (call.parameters.zip target.argumentSlots).map
      (fun (argument, argumentSlot) => step (loadArgument argument argumentSlot))
    ++ call.items

theorem items_split (call : HookCall) (target : Target) (slot : UInt16) (fresh : Label) :
    items call target slot fresh =
      asking call target slot fresh ++ useAnswer target slot fresh.next ++ [.label fresh] := by
  simp [items_eq, asking, consult]

theorem asking_checks {fields : HookFields} (typed : HookCall.FieldsTyped fields)
    (fits : FitsIn interface target slot frame) {marks : Label → Option VFrame} {skip : Label}
    (marked : marks skip = some frame) :
    Checks method marks base (asking (HookCall.of fields interface) target slot skip) (some frame)
      (some ⟨frame.locals,
        (interface.descriptor.result.map VType.ofFieldType).toList ++ frame.stack⟩) := by
  obtain ⟨object, found, reference⟩ := fits.object
  have loads {base : Nat} : Checks method marks base [step (.load .reference slot)] (some frame)
      (some ⟨frame.locals, object :: frame.stack⟩) :=
    .instruction (execute_loadReference found reference) .nil
  have tests : Checks method marks base (test (HookCall.of fields interface) slot skip) (some frame)
      (some frame) :=
    loads.append (HookCall.guard_checks typed reference marked)
  exact ((tests.append loads).append (loadArguments_checks fits.arguments)).append
    (HookCall.items_checks typed interface reference)

/-- A hook of an accepted target is checked, with its frame from the start at the label behind. -/
theorem items_checks (base : Nat) (accepted : target.fault? interface = none)
    (caches : target.CachesReference) {fields : HookFields} (typed : HookCall.FieldsTyped fields)
    (fits : FitsIn interface target slot frame) (returns : target.ReturnsIn method)
    (fresh : Label) :
    ∃ marks, marks fresh = some frame ∧ Checks method marks base
      (test (HookCall.of fields interface) slot fresh ++
        consult (HookCall.of fields interface) target slot fresh)
      (some frame) (through interface target slot frame) := by
  let front := asking (HookCall.of fields interface) target slot fresh
  obtain ⟨first, second, answered⟩ :=
    useAnswer_checks (base + front.length) accepted caches fits returns fresh.next
  let marks := marking fresh frame first second
  have skipMarked : marks fresh = some frame := if_pos rfl
  have firstMarked : marks fresh.next = some first := by simp [marks, marking, next_ne]
  have secondMarked : marks fresh.next.next = some second := by
    simp [marks, marking, next_ne, next_next_ne]
  have split : test (HookCall.of fields interface) slot fresh ++
      consult (HookCall.of fields interface) target slot fresh =
        front ++ useAnswer target slot fresh.next := by
    simp [front, asking, consult]
  refine ⟨marks, skipMarked, ?_⟩
  rw [split]
  exact (asking_checks typed fits skipMarked).append (answered marks firstMarked secondMarked)

end HookSite

/-- Each target of an accepted spec gets a hook that can be put wherever the locals hold what it
reads, provided that answers are cached in a field of a reference type. -/
theorem HookSpec.items_embed {interface : InterfaceMethod} {targets : List Target}
    {spec : HookSpec} (accepted : HookSpec.ofParts interface targets = .ok spec) {target : Target}
    (member : target ∈ spec.targets) (caches : target.CachesReference) {thisClass : BinaryName}
    {fields : HookFields} (named : HookFields.of thisClass spec.interface = .ok fields)
    {method : MethodContext} (returns : target.ReturnsIn method) {slot : UInt16} {frame : VFrame}
    (fits : HookSite.FitsIn spec.interface target slot frame) (base : Nat) (fresh : Label) :
    (HookSite.alone (HookCall.of fields spec.interface) target slot fresh).Embeds method base frame
      fresh (HookSite.through spec.interface target slot frame) := by
  obtain ⟨marks, marked, checks⟩ := HookSite.items_checks base (ofParts_fault accepted member) caches
    (HookFields.of_typed named) fits returns fresh
  refine checks.embeds (HookSite.items_eq _ _ _ _) marked ?_ fun jump => HookSite.branches_closed
  intro placed
  rcases List.mem_append.mp placed with tested | consulted
  · simp [HookSite.test, HookSite.step, HookCall.guard] at tested
  · exact absurd (HookSite.lt_of_mem_consult consulted) (Nat.lt_irrefl _)

theorem HookSite.asking_falls {call : HookCall} {target : Target} {slot : UInt16} {skip : Label}
    {item : Item} (member : item ∈ asking call target slot skip) :
    FlowGraph.fallsThrough item = true := by
  simp only [asking, test, step, HookCall.guard, HookCall.items, List.mem_append, List.mem_cons,
    List.mem_map, List.not_mem_nil, or_false] at member
  rcases member with (((rfl | rfl | rfl | rfl | rfl) | rfl) | ⟨_, -, rfl⟩) | ⟨_, -, rfl⟩ <;> rfl

/-- A hook that caches answers gets to where it sets the field, with a new reference object on the
receiver. -/
theorem HookSite.cached_arrives {interface : InterfaceMethod} {target : Target} {slot : UInt16}
    {frame : VFrame} (method : MethodContext) (base : Nat) {fields : HookFields}
    (typed : HookCall.FieldsTyped fields) (fits : FitsIn interface target slot frame)
    {call : CallSite} {field : FieldRef} {referenceClass : BinaryName}
    (shape : target.shape = .cache call field referenceClass) {answer : RefType}
    (answers : interface.descriptor.result = some (.ref answer)) (fresh : Label) :
    let hook := alone (HookCall.of fields interface) target slot fresh
    ∃ (position : Nat) (locals stack : List VType) (this : VType),
      hook.items[position]? = some (step (.field .putField field)) ∧
        hook.Arrives method base frame position
          ⟨locals, VType.ofClass referenceClass :: this :: stack⟩ := by
  intro hook
  let front := asking (HookCall.of fields interface) target slot fresh
  let setup := (returnCached field referenceClass slot).take 6
  have reference : (VType.ofFieldType (.ref answer)).isReference = true := rfl
  obtain ⟨kept, rest, this, -, -, setupChecks⟩ := cacheSetup_checks (base + front.length)
    frame.stack slot field referenceClass reference (fits.receiver call field referenceClass shape)
  let marks : Label → Option VFrame := fun _ => some frame
  have asked : Checks method marks base front (some frame)
      (some ⟨frame.locals, (interface.descriptor.result.map VType.ofFieldType).toList
        ++ frame.stack⟩) := asking_checks typed fits rfl
  rw [answers] at asked
  have split : hook.items = (front ++ setup) ++ step (.field .putField field) ::
      ((returnCached field referenceClass slot).drop 7 ++ HookCall.landing fresh) := by
    simp [hook, setup, alone, items, front, asking, test, useAnswer, shape, returnCached]
  have falls (item : Item) (member : item ∈ front ++ setup) :
      FlowGraph.fallsThrough item = true := by
    rcases List.mem_append.mp member with asking | setting
    · exact asking_falls asking
    · simp only [setup, returnCached, step, List.take_succ_cons, List.take_zero, List.mem_cons,
        List.not_mem_nil, or_false] at setting
      rcases setting with rfl | rfl | rfl | rfl | rfl | rfl <;> rfl
  refine ⟨(front ++ setup).length, kept, rest, this, ?_, ?_⟩
  · rw [split, List.getElem?_append_right (Nat.le_refl _), Nat.sub_self]
    rfl
  · exact (asked.append (setupChecks method marks)).arrives_end split falls

/-- If answers are cached in a field of a primitive type, the hook fails where it sets the field. -/
theorem HookSpec.items_not_embed {interface : InterfaceMethod} {targets : List Target}
    {spec : HookSpec} (accepted : HookSpec.ofParts interface targets = .ok spec) {target : Target}
    (member : target ∈ spec.targets) (miscaches : ¬ target.CachesReference)
    {thisClass : BinaryName} {fields : HookFields}
    (named : HookFields.of thisClass spec.interface = .ok fields) (method : MethodContext)
    {slot : UInt16} {frame : VFrame} (fits : HookSite.FitsIn spec.interface target slot frame)
    (base : Nat) (fresh : Label) (through : Option VFrame) :
    ¬ (HookSite.alone (HookCall.of fields spec.interface) target slot fresh).Embeds method base
      frame fresh through := by
  intro embeds
  refine miscaches fun call field referenceClass shape => ?_
  by_contra primitive
  have count := fits.arguments.length_eq
  have ⟨answer, _⟩ : Target.isReference spec.interface.descriptor.result = true ∧
      Target.isReference target.descriptor.result = true := by
    simpa [Target.fault?, shape, count] using ofParts_fault accepted member
  obtain ⟨answerType, isAnswer⟩ := HookSite.reference_answer answer
  obtain ⟨position, locals, stack, this, found, arrives⟩ := HookSite.cached_arrives method base
    (HookFields.of_typed named) fits shape isAnswer fresh
  obtain ⟨after, done⟩ := embeds.done arrives found
  cases isType : field.type with
  | ref type => exact primitive (isType ▸ rfl)
  | base type => exact HookSite.putField_fails isType referenceClass this after done

/-- Each target of an accepted spec gets a hook that can be put wherever the locals hold what it
reads, except that the field for cached answers must have a reference type, which is not checked. -/
theorem HookSpec.items_embed_iff {interface : InterfaceMethod} {targets : List Target}
    {spec : HookSpec} (accepted : HookSpec.ofParts interface targets = .ok spec) {target : Target}
    (member : target ∈ spec.targets) {thisClass : BinaryName} {fields : HookFields}
    (named : HookFields.of thisClass spec.interface = .ok fields) {method : MethodContext}
    (returns : target.ReturnsIn method) {slot : UInt16} {frame : VFrame}
    (fits : HookSite.FitsIn spec.interface target slot frame) (base : Nat) (fresh : Label) :
    (HookSite.alone (HookCall.of fields spec.interface) target slot fresh).Embeds method base frame
      fresh (HookSite.through spec.interface target slot frame) ↔ target.CachesReference := by
  constructor
  · intro embeds
    by_contra miscaches
    exact items_not_embed accepted member miscaches named method fits base fresh _ embeds
  · intro caches
    exact items_embed accepted member caches named returns fits base fresh

/-- Takes a number and a text, and answers with threads. -/
def gathering : InterfaceMethod :=
  ⟨⟨"net/example/IHook", by decide⟩, ⟨"hook", by decide⟩,
    ⟨[.base .long, .object .string], some (.arrayOf (.object .thread))⟩⟩

/-- Its hook joins the names of threads. -/
def gatheringTarget : Target :=
  ⟨⟨"run", by decide⟩, ⟨[.base .long, .object .string], some (.object .string)⟩,
    .aggregate ⟨.thread, .currentThread, ⟨[], some (.object .thread)⟩⟩ .thread .toStringName, [1, 3]⟩

def gatheringSpec : HookSpec := ⟨gathering, [gatheringTarget]⟩

def gatheringMethod : MethodContext := ⟨.thread, gatheringTarget.name, gatheringTarget.descriptor, false⟩

def gatheringFields : HookFields :=
  ⟨⟨.thread, ⟨"CNET_EXAMPLE_IHOOK", by decide⟩, .object .classObject⟩,
    ⟨.thread, ⟨"CNET_EXAMPLE_IHOOK_HOOK", by decide⟩, .object .reflectMethod⟩⟩

/-- The locals end in a value whose second slot is not listed, as they do where paths meet. -/
def gatheringFrame : VFrame :=
  ⟨[VType.ofClass .thread, .long, .top, VType.ofClass .string, .null, .double], []⟩

theorem gathering_fits : HookSite.FitsIn gathering gatheringTarget 4 gatheringFrame where
  spaced index wide := by
    rcases index with _ | _ | _ | _ | _ | _ | index <;> first | rfl | cases wide
  object := ⟨.null, rfl, rfl⟩
  arguments := .cons rfl (.cons rfl .nil)
  receiver _ _ _ shape := nomatch shape
  scratch := rfl

theorem gathering_embeds : HookSpec.ofParts gathering [gatheringTarget] = .ok gatheringSpec ∧
    gatheringTarget ∈ gatheringSpec.targets ∧
    HookFields.of .thread gathering = .ok gatheringFields ∧
    gatheringTarget.ReturnsIn gatheringMethod ∧
    HookSite.FitsIn gathering gatheringTarget 4 gatheringFrame ∧
    (HookSite.alone (HookCall.of gatheringFields gathering) gatheringTarget 4 ⟨0⟩).Embeds
      gatheringMethod 0 gatheringFrame ⟨0⟩ none := by
  have accepted : HookSpec.ofParts gathering [gatheringTarget] = .ok gatheringSpec := by
    decide +kernel
  have member : gatheringTarget ∈ gatheringSpec.targets := List.mem_cons_self
  have caches : gatheringTarget.CachesReference := fun _ _ _ shape => nomatch shape
  have named : HookFields.of .thread gathering = .ok gatheringFields := by decide +kernel
  have returns : gatheringTarget.ReturnsIn gatheringMethod := rfl
  exact ⟨accepted, member, named, returns, gathering_fits,
    (HookSpec.items_embed_iff accepted member named returns gathering_fits 0 ⟨0⟩).mpr caches⟩

/-- Answers with an object. -/
def answering : InterfaceMethod :=
  ⟨gathering.owner, gathering.name, ⟨[], some (.object .object)⟩⟩

/-- Its answers are cached in a number. -/
def miscached : Target :=
  ⟨gatheringTarget.name, ⟨[], some (.object .object)⟩,
    .cache ⟨.thread, .currentThread, ⟨[], some (.object .thread)⟩⟩
      ⟨.thread, .typeField, .base .int⟩ .reference, []⟩

def miscachedSpec : HookSpec := ⟨answering, [miscached]⟩

def miscachedMethod : MethodContext := ⟨.thread, miscached.name, miscached.descriptor, false⟩

def miscachedFrame : VFrame := ⟨[VType.ofClass .thread, .null], []⟩

theorem miscached_fits : HookSite.FitsIn answering miscached 1 miscachedFrame where
  spaced index wide := by
    rcases index with _ | _ | index <;> cases wide
  object := ⟨.null, rfl, rfl⟩
  arguments := .nil
  receiver _ _ _ _ := ⟨_, rfl, rfl⟩
  scratch := rfl

/-- The spec is accepted, and yet there is no way to put its hook where it fits. -/
theorem miscached_fails : HookSpec.ofParts answering [miscached] = .ok miscachedSpec ∧
    miscached ∈ miscachedSpec.targets ∧ HookFields.of .thread answering = .ok gatheringFields ∧
    miscached.ReturnsIn miscachedMethod ∧ HookSite.FitsIn answering miscached 1 miscachedFrame ∧
    ∀ base fresh through, ¬ (HookSite.alone (HookCall.of gatheringFields answering) miscached 1
      fresh).Embeds miscachedMethod base miscachedFrame fresh through := by
  have accepted : HookSpec.ofParts answering [miscached] = .ok miscachedSpec := by decide +kernel
  have member : miscached ∈ miscachedSpec.targets := List.mem_cons_self
  have named : HookFields.of .thread answering = .ok gatheringFields := by decide +kernel
  have miscaches : ¬ miscached.CachesReference := fun caches => nomatch caches _ _ _ rfl
  exact ⟨accepted, member, named, rfl, miscached_fits, fun base fresh through =>
    HookSpec.items_not_embed accepted member miscaches named miscachedMethod miscached_fits base
      fresh through⟩

end ClassWeave
