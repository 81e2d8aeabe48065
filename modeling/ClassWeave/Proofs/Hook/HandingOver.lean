import Mathlib
import ClassWeave.Proofs.Hook.Asking
import ClassWeave.Proofs.Hook.Triggering

/-!
# What hooks hand over

A hook hands the object that it tests, and the arguments that it loads, to other code, which must only
get objects that are initialized. Nothing a hook does initializes the object or an argument, so it
depends on the frame that the hook is entered with.
-/

namespace ClassWeave

open VFrame

namespace VFrame

/-- The local refers to an initialized object, or to none. -/
def HasInitialized (frame : VFrame) (slot : UInt16) : Prop :=
  ∃ type : VType, frame.locals[slot.toNat]? = some type ∧ type.isInitialized = true

theorem hasInitialized_iff {frame : VFrame} {slot : UInt16} :
    frame.HasInitialized slot ↔ VType.isInitialized (frame.locals.getD slot.toNat .top) = true := by
  rw [HasInitialized, List.getD_eq_getElem?_getD]
  cases frame.locals[slot.toNat]? with
  | none => simp [VType.isInitialized]
  | some type => simp

end VFrame

namespace HookSite

/-- The classes of the objects on the stack do not matter. -/
theorem handedOver_alike {stack other : List VType} (alike : List.Forall₂ VType.Alike stack other)
    (item : Item) : (∀ type ∈ handedOver item stack, type.isInitialized = true) ↔
      ∀ type ∈ handedOver item other, type.isInitialized = true := by
  have entries (index : Nat) : (∀ type ∈ stack[index]?, type.isInitialized = true) ↔
      ∀ type ∈ other[index]?, type.isInitialized = true := by
    induction alike generalizing index with
    | nil => exact Iff.rfl
    | cons first _ ih =>
      cases index with
      | zero => simp [first.isInitialized_eq]
      | succ index => exact ih index
  unfold handedOver
  split
  · split
    · exact entries 0
    · split
      · exact entries 1
      · exact Iff.rfl
  · exact entries 0
  · exact entries 0
  · exact Iff.rfl

/-- In the frames of a body, the items from a position on hand over only what is initialized. -/
def HandsInitialized (typing : Typing) (base : Nat) (items : List Item) : Prop :=
  ∀ (index : Nat) (item : Item) (frame : VFrame), items[index]? = some item →
    typing.frameAt (base + index) = some frame →
      ∀ type ∈ handedOver item frame.stack, type.isInitialized = true

section

variable {typing : Typing} {base : Nat} {item : Item} {items earlier later : List Item}

theorem handsInitialized_cons : HandsInitialized typing base (item :: items) ↔
    (∀ frame, typing.frameAt base = some frame →
      ∀ type ∈ handedOver item frame.stack, type.isInitialized = true) ∧
    HandsInitialized typing (base + 1) items := by
  constructor
  · intro hands
    refine ⟨fun frame there => hands 0 item frame rfl there, fun index other frame found there => ?_⟩
    rw [Nat.add_assoc, Nat.add_comm 1] at there
    exact hands (index + 1) other frame found there
  · rintro ⟨first, rest⟩ index other frame found there
    cases index with
    | zero =>
      cases found
      exact first frame there
    | succ index =>
      rw [← Nat.add_assoc, Nat.add_right_comm] at there
      exact rest index other frame found there

theorem handsInitialized_append : HandsInitialized typing base (earlier ++ later) ↔
    HandsInitialized typing base earlier ∧
      HandsInitialized typing (base + earlier.length) later := by
  induction earlier generalizing base with
  | nil =>
    have none : HandsInitialized typing base [] := fun _ _ _ found => nomatch found
    exact ⟨fun hands => ⟨none, hands⟩, And.right⟩
  | cons first earlier ih =>
    have along : base + (first :: earlier).length = base + 1 + earlier.length := by
      rw [List.length_cons]
      omega
    rw [List.cons_append, handsInitialized_cons, ih, handsInitialized_cons, and_assoc, along]

theorem handsInitialized_of_quiet (quiet : ∀ item ∈ items, ∀ stack, handedOver item stack = none) :
    HandsInitialized typing base items := by
  intro index item frame found _ type handed
  rw [quiet item (List.mem_of_getElem? found)] at handed
  cases handed

end

namespace Walks

variable {locals before after handed : List VType} {items : List Item}

/-- What is known of the frames of a body where a walk leads on from one of them. -/
structure Along (method : MethodContext) (typing : Typing) (locals : List VType) (base : Nat)
    (items : List Item) (after handed : List VType) : Prop where
  done {index : Nat} {item : Item} : items[index]? = some item → ∃ frame passed,
    LocalsAlike locals frame.locals ∧
      FlowGraph.after method (base + index) frame item = .ok passed
  ends : ∃ last, typing.frameAt (base + items.length) = some last ∧
    LocalsAlike locals last.locals ∧ List.Forall₂ VType.Alike after last.stack
  initialized : HandsInitialized typing base items ↔ ∀ type ∈ handed, type.isInitialized = true

/-- Locals that references are loaded from hold references. -/
theorem Along.isReference {method : MethodContext} {typing : Typing} {base : Nat}
    (walked : Along method typing locals base items after handed) {slot : UInt16}
    (member : .instruction (.load .reference slot) ∈ items) :
    (locals.getD slot.toNat .top).isReference = true := by
  obtain ⟨index, found⟩ := List.mem_iff_getElem?.mp member
  obtain ⟨frame, passed, localsAlike, done⟩ := walked.done found
  exact isReference_of_load localsAlike done

/-- A walk of items that leave the locals alone is found again in the frames of a body. -/
theorem along {body : Body} {method : MethodContext} {hierarchy : Hierarchy} {typing : Typing}
    (typed : body.inferFrames method hierarchy = .ok typing)
    (walks : Walks VType.Alike locals items before after handed)
    (reads : ∀ item ∈ items, item.readsOnly = true)
    (falls : ∀ item ∈ items, FlowGraph.fallsThrough item = true) {base : Nat}
    (placed : body.HasAt base items)
    {frame : VFrame} (there : typing.frameAt base = some frame)
    (localsAlike : LocalsAlike locals frame.locals)
    (stackAlike : List.Forall₂ VType.Alike before frame.stack) :
    Along method typing locals base items after handed := by
  induction walks generalizing base frame with
  | nil =>
    refine ⟨nofun, ⟨frame, there, localsAlike, stackAlike⟩, ?_⟩
    exact iff_of_true (fun _ _ _ found => nomatch found) (fun _ member => nomatch member)
  | @step item items before middle after handed shifts rest ih =>
    obtain ⟨passed, done, onward⟩ := Body.inferFrames_onward typed there (placed 0 item rfl)
    obtain ⟨next, thereNext, alike⟩ := onward (falls item List.mem_cons_self)
    have kept : passed.locals = frame.locals := FlowGraph.after_locals
      (Item.keepsLocals_of_readsOnly (reads item List.mem_cons_self)) done
    have left := forall₂_comp (shifts localsAlike.refersLike stackAlike done) alike.stack
      fun _ _ _ => VType.Alike.trans
    have placedRest : body.HasAt (base + 1) items :=
      (Body.hasAt_append.mp (show body.HasAt base ([item] ++ items) from placed)).2
    have walked := ih (fun other member => reads other (List.mem_cons_of_mem item member))
      (fun other member => falls other (List.mem_cons_of_mem item member))
      placedRest thereNext (localsAlike.trans (kept ▸ alike.locals)) left
    refine ⟨fun {index other} found => ?_, ?_, ?_⟩
    · cases index with
      | zero =>
        cases found
        exact ⟨frame, passed, localsAlike, done⟩
      | succ index =>
        rw [← Nat.add_assoc, Nat.add_right_comm]
        exact walked.done found
    · rw [List.length_cons, ← Nat.add_assoc, Nat.add_right_comm]
      exact walked.ends
    · have here : (∀ other, typing.frameAt base = some other →
          ∀ type ∈ handedOver item other.stack, type.isInitialized = true) ↔
            ∀ type ∈ (handedOver item before).toList, type.isInitialized = true := by
        simp only [there, Option.some.injEq, forall_eq', Option.mem_toList]
        exact (handedOver_alike stackAlike item).symm
      rw [handsInitialized_cons, here, walked.initialized]
      simp only [List.mem_append, or_imp, forall_and]

end Walks

section

variable {fields : HookFields} {interface : InterfaceMethod} {target : Target} {slot : UInt16}

/-- Each argument that is loaded suits its parameter. -/
theorem Walks.Along.suit {method : MethodContext} {typing : Typing} {skip : Label}
    {base : Nat} {after handed : List VType} (walked : Walks.Along method typing locals base
      (loading (.of fields interface) target slot skip) after handed) :
    ∀ argument ∈ loaded interface target locals, VType.Suits argument.1 argument.2 := by
  intro argument member
  obtain ⟨⟨parameter, argumentSlot⟩, among, rfl⟩ := List.mem_map.mp member
  cases parameter with
  | base => exact rfl
  | ref type =>
    refine walked.isReference (List.mem_append_right _ ?_)
    rw [operands, HookCall.of, List.zip_map_left, List.map_map]
    exact List.mem_cons_of_mem _ (List.mem_map.mpr ⟨(.ref type, argumentSlot), among, rfl⟩)

/-- A box is initialized, so it only depends on the arguments that are references. -/
theorem passed_initialized_iff {frame : VFrame} :
    (∀ type ∈ (loaded interface target frame.locals).reverse.map passedType,
        type.isInitialized = true) ↔
      ∀ argument ∈ interface.descriptor.parameters.zip target.argumentSlots,
        (∃ type, argument.1 = .ref type) → frame.HasInitialized argument.2 := by
  simp only [loaded, List.forall_mem_map, List.mem_reverse]
  refine forall₂_congr fun argument _ => ?_
  obtain ⟨parameter, argumentSlot⟩ := argument
  cases parameter with
  | base => exact iff_of_true rfl (by rintro ⟨_, ⟨⟩⟩)
  | ref type =>
    exact ⟨fun initialized _ => hasInitialized_iff.mpr initialized,
      fun initialized => hasInitialized_iff.mp (initialized ⟨type, rfl⟩)⟩

/-- The answer is not handed over. -/
theorem unwrapResult_quiet {call : HookCall} {item : Item}
    (member : item ∈ call.unwrapResult.map Item.instruction) (stack : List VType) :
    handedOver item stack = none := by
  obtain ⟨instruction, unwraps, rfl⟩ := List.mem_map.mp member
  unfold HookCall.unwrapResult at unwraps
  split at unwraps
  · cases List.mem_singleton.mp unwraps
    rfl
  · rename_i result _
    cases result with
    | reference type =>
      by_cases root : type = .object .object
      · simp [ValueMarshal.unboxing, root] at unwraps
      · obtain rfl : instruction = .onClass .checkCast type := by
          simpa [ValueMarshal.unboxing, root] using unwraps
        rfl
    | primitive type =>
      rcases List.mem_pair.mp unwraps with rfl | rfl
      · rfl
      · exact handedOver_getter rfl stack

/-- Up to the answer, the object and the arguments are handed over as they are found. -/
theorem asking_handsInitialized {body : Body} {method : MethodContext} {hierarchy : Hierarchy}
    {typing : Typing} (typed : body.inferFrames method hierarchy = .ok typing)
    (fieldsTyped : HookCall.FieldsTyped fields)
    (count : target.argumentSlots.length = interface.descriptor.parameters.length) {skip : Label}
    {base : Nat} (placed : body.HasAt base (asking (.of fields interface) target slot skip))
    {entry : VFrame} (there : typing.frameAt base = some entry) :
    HandsInitialized typing base (asking (.of fields interface) target slot skip) ↔
      entry.HasInitialized slot ∧
        ∀ argument ∈ interface.descriptor.parameters.zip target.argumentSlots,
          (∃ type, argument.1 = .ref type) → entry.HasInitialized argument.2 := by
  have reads (item : Item) (member : item ∈ asking (.of fields interface) target slot skip) :
      item.readsOnly = true := asking_readOnly member
  have falls (item : Item) (member : item ∈ asking (.of fields interface) target slot skip) :
      FlowGraph.fallsThrough item = true := asking_falls member
  have same : LocalsAlike entry.locals entry.locals := (VFrame.Alike.refl entry).locals
  have reference : (entry.locals.getD slot.toNat .top).isReference = true := by
    obtain ⟨after, done, -⟩ := Body.inferFrames_onward typed there (placed 0 _ rfl)
    exact isReference_of_load same done
  rw [asking_eq] at placed reads falls ⊢
  obtain ⟨⟨placedFirst, placedThen⟩, -⟩ := Body.hasAt_append.mp placed |>.imp_left Body.hasAt_append.mp
  have walked := (loading_walks VType.Alike.resembles fieldsTyped skip reference).along typed
    (fun item member => reads item (by simp [member])) (fun item member => falls item (by simp [member]))
    placedFirst there same (VFrame.Alike.refl entry).stack
  obtain ⟨middle, thereMiddle, localsMiddle, stackMiddle⟩ := walked.ends
  have delivered := (delivering_walks VType.Alike.resembles fieldsTyped count walked.suit reference).along typed
    (fun item member => reads item (by simp [member])) (fun item member => falls item (by simp [member]))
    placedThen thereMiddle localsMiddle stackMiddle
  have quiet : HandsInitialized typing (base + (loading (.of fields interface) target slot skip ++
      delivering (.of fields interface)).length)
      ((HookCall.of fields interface).unwrapResult.map Item.instruction) :=
    handsInitialized_of_quiet fun item member stack => unwrapResult_quiet member stack
  rw [handsInitialized_append, handsInitialized_append, and_iff_left quiet, walked.initialized,
    delivered.initialized, List.forall_mem_append, passed_initialized_iff, List.forall_mem_singleton,
    hasInitialized_iff, and_comm, and_assoc, and_self, and_comm]

end

/-- The selected field is only returned. -/
theorem returnSelected_quiet {ifTrue ifFalse : FieldRef} {isFalse isPicked : Label} {item : Item}
    (member : item ∈ returnSelected ifTrue ifFalse isFalse isPicked) (stack : List VType) :
    handedOver item stack = none := by
  simp only [returnSelected, step, List.mem_cons, List.not_mem_nil, or_false] at member
  rcases member with rfl | rfl | rfl | rfl | rfl | rfl | rfl <;> rfl

/-- The methods that make and join texts get nothing that the hook has been given. -/
theorem returnJoined_quiet {chunkOwner : BinaryName} {chunkMethod : UnqualifiedName} {slot : UInt16}
    {first condition : Label} {item : Item}
    (member : item ∈ returnJoined chunkOwner chunkMethod slot first condition) (stack : List VType) :
    handedOver item stack = none := by
  simp only [returnJoined, step, List.mem_cons, List.not_mem_nil, or_false] at member
  rcases member with rfl | rfl | rfl | rfl | rfl | rfl | rfl | rfl | rfl | rfl | rfl | rfl | rfl | rfl |
    rfl | rfl | rfl | rfl | rfl | rfl | rfl | rfl | rfl | rfl | rfl | rfl | rfl
  all_goals first | rfl | exact handedOver_getter rfl stack

section

variable {body : Body} {method : MethodContext} {hierarchy : Hierarchy} {typing : Typing}
  (typed : body.inferFrames method hierarchy = .ok typing)

include typed

/-- A constructor has run on what is put into the field. -/
theorem constructed_isInitialized {referenceClass : BinaryName} {slot : UInt16} {base : Nat}
    (placed : body.HasAt base [step (.onClass .new (.object referenceClass)),
      step (.plain (.stack .dup)), step (.load .reference slot),
      step (.invoke .special (.ofClass referenceClass .init [.object .object] none))])
    {before last : VFrame} (there : typing.frameAt base = some before)
    (behind : typing.frameAt (base + 4) = some last) :
    ∃ (type : VType) (rest : List VType), last.stack = type :: rest ∧ type.isInitialized = true := by
  obtain ⟨_, creates, onward⟩ := Body.inferFrames_onward typed there (placed 0 _ rfl)
  cases Except.ok.inj ((execute_new referenceClass).symm.trans creates)
  obtain ⟨⟨_, _⟩, there, _ | ⟨new, -⟩, -⟩ := onward rfl
  cases new.eq_of_uninitialized rfl
  obtain ⟨_, copies, onward⟩ := Body.inferFrames_onward typed there (placed 1 _ rfl)
  cases Except.ok.inj ((execute_dup rfl).symm.trans copies)
  obtain ⟨⟨_, _⟩, there, _ | ⟨copy, _ | ⟨new, -⟩⟩, -⟩ := onward rfl
  cases copy.eq_of_uninitialized rfl
  cases new.eq_of_uninitialized rfl
  obtain ⟨_, loads, onward⟩ := Body.inferFrames_onward typed there (placed 2 _ rfl)
  obtain ⟨argument, kinds, -, rfl⟩ := load_of_execute (VFrame.Alike.refl _).locals loads
  obtain ⟨⟨_, _⟩, there, _ | ⟨taken, _ | ⟨copy, _ | ⟨new, -⟩⟩⟩, -⟩ := onward rfl
  cases copy.eq_of_uninitialized rfl
  cases new.eq_of_uninitialized rfl
  obtain ⟨_, constructs, onward⟩ := Body.inferFrames_onward typed there (placed 3 _ rfl)
  rcases kinds with ⟨⟨⟩⟩ | ⟨-, reference⟩
  let constructor : MethodRef := .ofClass referenceClass .init [.object .object] none
  have isConstructor : constructor.isConstructor = true := rfl
  have fit : List.Forall₂ FrameM.Takes constructor.descriptor.parameters.reverse [_] :=
    .cons (FrameM.takes_reference _ (taken.isReference_eq.symm.trans reference)) .nil
  cases Except.ok.inj ((execute_construct isConstructor rfl fit).symm.trans constructs)
  obtain ⟨⟨_, _⟩, there, _ | ⟨object, -⟩, -⟩ := onward rfl
  cases Option.some.inj (there.symm.trans behind)
  refine ⟨_, _, rfl, object.isInitialized_eq.symm.trans ?_⟩
  rw [FrameM.replaced, if_pos rfl]
  rfl

/-- The field for cached answers gets a reference object that the hook has made. -/
theorem returnCached_handsInitialized {field : FieldRef} {referenceClass : BinaryName} {slot : UInt16}
    {base : Nat} (placed : body.HasAt base (returnCached field referenceClass slot)) :
    HandsInitialized typing base (returnCached field referenceClass slot) := by
  intro index item frame found there type handed
  -- only the item that sets the field hands anything over
  obtain rfl : index = 6 := by
    rcases index with _ | _ | _ | _ | _ | _ | _ | _ | _ | index
    case succ.succ.succ.succ.succ.succ.zero => rfl
    all_goals cases found <;> cases handed
  cases found
  obtain ⟨-, constructs⟩ := Body.hasAt_append.mp
    (show body.HasAt base ([_, _] ++ ([_, _, _, _] ++ [_, _, _])) from placed)
  obtain ⟨before, earlier⟩ := Body.inferFrames_entry typed
    (by simp [step, Item.label?]) constructs (show 4 < 7 by decide) there
  obtain ⟨last, rest, stack, initialized⟩ := constructed_isInitialized typed
    (Body.hasAt_append.mp constructs).1 earlier there
  rw [stack] at handed
  cases handed
  exact initialized

/-- However a hook uses the answer, it only hands over a reference object that it has made. -/
theorem useAnswer_handsInitialized {target : Target} {slot : UInt16} {fresh : Label} {base : Nat}
    (placed : body.HasAt base (useAnswer target slot fresh)) :
    HandsInitialized typing base (useAnswer target slot fresh) := by
  unfold useAnswer at placed ⊢
  cases shape : target.shape with
  | cache call field referenceClass =>
    simp only [shape] at placed ⊢
    exact returnCached_handsInitialized typed placed
  | entry | callBranch | callResult =>
    refine handsInitialized_of_quiet fun item member stack => ?_
    cases List.mem_singleton.mp member
    rfl
  | entrySelect =>
    exact handsInitialized_of_quiet fun item => returnSelected_quiet
  | aggregate =>
    exact handsInitialized_of_quiet fun item => returnJoined_quiet

end

end HookSite

namespace HookPlan

/-- The references that a hook hands over to the test, to the interface method and to the field for
cached answers are initialized exactly if those in the hooked local and in the locals of its arguments
are, in the frame that the hook is entered with. -/
theorem handsInitialized_iff {interface : InterfaceMethod} {targets : List Target}
    {spec : HookSpec} (accepted : HookSpec.ofParts interface targets = .ok spec) {plan : HookPlan}
    (member : plan.target ∈ spec.targets) {thisClass : BinaryName} {fields : HookFields}
    (named : HookFields.of thisClass spec.interface = .ok fields)
    (calls : plan.call = .of fields spec.interface) {body hooked : Body}
    (found : plan.hooked? body = some hooked) {method : MethodContext} {hierarchy : Hierarchy}
    {typing : Typing} (typed : hooked.inferFrames method hierarchy = .ok typing) :
    ∃ position slot, plan.target.shape.TriggersAt body.items position slot ∧
      hooked = body.splice position (HookSite.items plan.call plan.target slot body.nextLabel)
        (HookSite.nextLabel plan.target.shape body.nextLabel) ∧
      (HookSite.HandsInitialized typing position
          (HookSite.items plan.call plan.target slot body.nextLabel) ↔
        ∀ entry, typing.frameAt position = some entry → entry.HasInitialized slot ∧
          ∀ argument ∈ spec.interface.descriptor.parameters.zip plan.target.argumentSlots,
            (∃ type, argument.1 = .ref type) → entry.HasInitialized argument.2) := by
  obtain ⟨position, slot, triggers, spliced⟩ := exists_spliced found
  refine ⟨position, slot, triggers, spliced, ?_⟩
  have placed : hooked.HasAt position (HookSite.items plan.call plan.target slot body.nextLabel) :=
    spliced ▸ Body.splice_hasAt triggers.within
  have count : plan.target.argumentSlots.length = spec.interface.descriptor.parameters.length := by
    by_contra other
    simpa [Target.fault?, other] using HookSpec.ofParts_fault accepted member
  rw [HookSite.items_split, calls] at placed ⊢
  obtain ⟨⟨placedFirst, placedThen⟩, -⟩ := (Body.hasAt_append.mp placed).imp_left Body.hasAt_append.mp
  have answered := HookSite.useAnswer_handsInitialized typed placedThen
  have landing (base : Nat) :
      HookSite.HandsInitialized typing base [.label body.nextLabel] :=
    HookSite.handsInitialized_of_quiet fun item member _ => by
      cases List.mem_singleton.mp member
      rfl
  rw [HookSite.handsInitialized_append, HookSite.handsInitialized_append, and_iff_left (landing _),
    and_iff_left answered]
  cases there : typing.frameAt position with
  | none =>
    refine iff_of_true (fun index item frame found later => ?_) (by rintro entry ⟨⟩)
    obtain ⟨entry, entered⟩ := Body.inferFrames_entry typed (fun _ => HookSite.asking_noLabel)
      placedFirst (List.getElem?_eq_some_iff.mp found).1 later
    cases there.symm.trans entered
  | some entry =>
    simp only [Option.some.injEq, forall_eq']
    exact HookSite.asking_handsInitialized typed (HookFields.of_typed named) count placedFirst there

/-- Is told a text. -/
def telling : InterfaceMethod := ⟨gathering.owner, gathering.name, ⟨[.object .string], none⟩⟩

/-- Tells the receiver its argument when a method is entered. -/
def tellingPlan (name : UnqualifiedName) : HookPlan where
  call := .of gatheringFields telling
  target := ⟨name, ⟨[.object .string], none⟩, .entry 0, [1]⟩

def tellingMethod (name : UnqualifiedName) : MethodContext :=
  ⟨.thread, name, (tellingPlan name).target.descriptor, false⟩

/-- Calls a method on the receiver. -/
def invoking (kind : InvokeKind) (method : MethodRef) : Body :=
  { Body.empty with
    items := [.instruction (.load .reference 0), .instruction (.invoke kind method),
      .branch (.ret .void)] }

def getting : Body := invoking .virtual (.ofClass .thread .getInstance [] none)

def gettingHooked : Body := getting.splice 0
  (HookSite.items (tellingPlan .getInstance).call (tellingPlan .getInstance).target 0 ⟨0⟩) ⟨1⟩

theorem gettingHooked_frameAt : ∃ typing,
    gettingHooked.inferFrames (tellingMethod .getInstance) .flat = .ok typing ∧
      typing.frameAt 0 = some ⟨[VType.ofClass .thread, VType.ofClass .string], []⟩ := by
  have found : (Typing.frameAt · 0) <$>
      gettingHooked.inferFrames (tellingMethod .getInstance) .flat =
        .ok (some ⟨[VType.ofClass .thread, VType.ofClass .string], []⟩) := by
    cbv
  exact Outcome.map_ok.mp found

/-- On entry to a method that is no constructor, receiver and argument are initialized. -/
theorem getting_handsInitialized :
    HookSpec.ofParts telling [(tellingPlan .getInstance).target] =
      .ok ⟨telling, [(tellingPlan .getInstance).target]⟩ ∧
    HookFields.of .thread telling = .ok gatheringFields ∧
    (tellingPlan .getInstance).call = .of gatheringFields telling ∧
    (tellingPlan .getInstance).hooked? getting = some gettingHooked ∧
    ∃ typing, gettingHooked.inferFrames (tellingMethod .getInstance) .flat = .ok typing ∧
      HookSite.HandsInitialized typing 0
        (HookSite.items (tellingPlan .getInstance).call (tellingPlan .getInstance).target 0 ⟨0⟩) := by
  have accepted : HookSpec.ofParts telling [(tellingPlan .getInstance).target] =
      .ok ⟨telling, [(tellingPlan .getInstance).target]⟩ := by
    decide +kernel
  have named : HookFields.of .thread telling = .ok gatheringFields := by decide +kernel
  have found : (tellingPlan .getInstance).hooked? getting = some gettingHooked := rfl
  obtain ⟨typing, typed, entered⟩ := gettingHooked_frameAt
  refine ⟨accepted, named, rfl, found, typing, typed, ?_⟩
  obtain ⟨position, slot, triggers, -, initialized⟩ :=
    handsInitialized_iff accepted List.mem_cons_self named rfl found typed
  obtain ⟨rfl, rfl⟩ := triggers.unique (.entry 0)
  refine initialized.mpr fun entry there => ?_
  cases Option.some.inj (entered.symm.trans there)
  refine ⟨⟨_, rfl, rfl⟩, fun argument member _ => ?_⟩
  cases List.mem_singleton.mp member
  exact ⟨_, rfl, rfl⟩

/-- A constructor that calls the one of the superclass. -/
def constructing : Body := invoking .special (.ofClass .object .init [] none)

def constructingHooked : Body := constructing.splice 0
  (HookSite.items (tellingPlan .init).call (tellingPlan .init).target 0 ⟨0⟩) ⟨1⟩

/-- All checks are passed for a constructor, and yet the receiver is tested before it is initialized. -/
theorem constructing_handsUninitialized :
    HookSpec.ofParts telling [(tellingPlan .init).target] =
      .ok ⟨telling, [(tellingPlan .init).target]⟩ ∧
    (tellingPlan .init).target.checkTypes telling .flat = .ok () ∧
    HookFields.of .thread telling = .ok gatheringFields ∧
    (tellingPlan .init).call = .of gatheringFields telling ∧
    (tellingPlan .init).hooked? constructing = some constructingHooked ∧
    ∃ typing, constructingHooked.inferFrames (tellingMethod .init) .flat = .ok typing ∧
      constructingHooked.items[3]? =
        some (.instruction (.invoke .virtual HookCall.isInstanceMethod)) ∧
      ∃ frame, typing.frameAt 3 = some frame ∧
        HookSite.handedOver (.instruction (.invoke .virtual HookCall.isInstanceMethod)) frame.stack =
          some .uninitializedThis := by
  have found : (Typing.frameAt · 3) <$>
      constructingHooked.inferFrames (tellingMethod .init) .flat =
        .ok (some ⟨[.uninitializedThis, VType.ofClass .string],
          [.uninitializedThis, VType.ofClass .classObject]⟩) := by
    cbv
  obtain ⟨typing, typed, there⟩ := Outcome.map_ok.mp found
  exact ⟨by decide +kernel, by cbv, by decide +kernel, rfl, rfl, typing, typed, rfl, _, there,
    HookSite.handedOver_isInstance _ _⟩

end HookPlan

end ClassWeave

