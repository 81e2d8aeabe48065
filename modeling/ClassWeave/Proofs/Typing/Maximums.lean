import ClassWeave.Proofs.Typing.Locals
import ClassWeave.Proofs.Typing.Reachability

/-!
# The room that typing asks for

Inference asks for as many stack slots as are in use before or after some item that can be reached,
and for as many locals as the parameters and the locals of such items take: never for less, and never
for more.
-/

namespace ClassWeave

/-- Where the local ends that an instruction reads or writes, if any. -/
def Instruction.localEnd? : SymInstruction → Option Nat
  | .load kind slot | .store kind slot => some (slot.toNat + kind.width)
  | .increment slot _ => some (slot.toNat + 1)
  | _ => none

namespace Typing

/-- Before or after an item that can be reached, so many stack slots are in use. -/
inductive StackNeed (typing : Typing) (body : Body) (method : MethodContext) : Nat → Prop where
  | before {position : Nat} {before : VFrame} (found : typing.frameAt position = some before) :
      StackNeed typing body method before.depth
  | after {position : Nat} {before after : VFrame} {item : Item}
      (found : typing.frameAt position = some before) (isItem : body.items[position]? = some item)
      (done : FlowGraph.after method position before item = .ok after) :
      StackNeed typing body method after.depth

/-- An instruction that can be reached reads or writes a local that ends here. -/
def Accesses (typing : Typing) (body : Body) (stop : Nat) : Prop :=
  ∃ position step, typing.isReachable position = true ∧
    body.items[position]? = some (.instruction step) ∧ step.localEnd? = some stop

end Typing

namespace Hierarchy

variable {hierarchy : Hierarchy}

theorem depth_eq_of_widths {locals otherLocals a b : List VType}
    (widths : List.Forall₂ (fun a b : VType => b.width = a.width) a b) :
    VFrame.depth ⟨locals, a⟩ = VFrame.depth ⟨otherLocals, b⟩ := by
  unfold VFrame.depth
  induction widths with
  | nil => rfl
  | cons same _ ih => simpa [same] using ih

/-- Frames that meet have stacks of one depth. -/
theorem ascends_depth (hierarchy : Hierarchy) :
    FrameSearch.Ascends hierarchy fun a b => a.depth = b.depth where
  refl _ := rfl
  trans := Eq.trans
  merge {item existing incoming merged} found := by
    obtain ⟨stack, stackFound, later⟩ := Outcome.bind_ok.mp found
    obtain ⟨locals, -, same⟩ := Outcome.bind_ok.mp later
    cases Outcome.pure_ok.mp same
    obtain ⟨left, right⟩ := mergeStacks_each mergeTypes_width stackFound
    exact ⟨depth_eq_of_widths left, depth_eq_of_widths right⟩

end Hierarchy

namespace FrameM

variable {α β : Type}

/-- Where an action goes well, no more stack slots are in use than were. -/
def Lowers (action : FrameM α) : Prop :=
  ∀ ⦃frame value after⦄, action frame = .ok (value, after) → after.depth ≤ frame.depth

theorem Lowers.pure (value : α) : Lowers (Pure.pure value : FrameM α) := by
  intro frame result after done
  cases done
  exact Nat.le_refl _

theorem Lowers.fail (fault : TypeFault) : Lowers (FrameM.fail fault : FrameM α) := by
  intro frame result after done
  cases done

theorem Lowers.bind {action : FrameM α} {next : α → FrameM β} (first : Lowers action)
    (second : ∀ value, Lowers (next value)) : Lowers (action >>= next) := by
  intro frame result after done
  obtain ⟨⟨value, middle⟩, ran, later⟩ := Outcome.bind_ok.mp done
  exact (second value later).trans (first ran)

theorem Lowers.ite {condition : Prop} [Decidable condition] {action other : FrameM α}
    (yes : Lowers action) (no : Lowers other) : Lowers (if condition then action else other) := by
  split
  · exact yes
  · exact no

theorem pop_depth {frame after : VFrame} {type : VType} (done : pop frame = .ok (type, after)) :
    frame.depth = type.width + after.depth := by
  unfold pop at done
  split at done
  · cases done
  · rename_i stacked
    cases done
    simp [VFrame.depth, stacked]

theorem lowers_pop : Lowers pop := fun _ _ _ done => pop_depth done ▸ Nat.le_add_left _ _

theorem lowers_popReference : Lowers popReference :=
  lowers_pop.bind fun type => .ite (.pure type) (.fail _)

theorem lowers_popExpecting (expected : VType) : Lowers (popExpecting expected) :=
  lowers_pop.bind fun _ => .ite (.pure _) (.fail _)

theorem lowers_returnPrimitive (type : VType) (result : Option FieldType) :
    Lowers (returnPrimitive type result) :=
  (lowers_popExpecting type).bind fun _ => .ite (.pure _) (.fail _)

theorem lowers_ret (result : Option FieldType) (kind : ReturnKind) : Lowers (ret result kind) := by
  cases kind with
  | int | long | float | double => exact lowers_returnPrimitive _ result
  | reference =>
    refine lowers_popReference.bind fun _ => ?_
    split
    · exact .pure _
    · exact .fail _
  | void => exact .ite (.pure _) (.fail _)

/-- What is thrown takes the place of the stack that it was on. -/
theorem lowers_athrow {τ : Type} (result : Option FieldType) :
    Lowers (branch result (.athrow : Branch τ)) := by
  intro frame value after done
  obtain ⟨⟨exception, middle⟩, ran, later⟩ := Outcome.bind_ok.mp done
  cases later
  obtain ⟨⟨popped, rest⟩, popping, checked⟩ := Outcome.bind_ok.mp ran
  have single := VType.width_of_isReference (isReference_of_popReference ran)
  simp only at checked
  split at checked
  · cases checked
    rw [pop_depth popping]
    simp [VFrame.depth, single]
  · cases checked

end FrameM

namespace FrameSearch

variable {hierarchy : Hierarchy} {graph : FlowGraph} {body : Body} {method : MethodContext}

/-- The stack after an item is no deeper than before it, or is passed on. -/
theorem effect_depth (described : graph.Describes body) {position : Nat} {item : Item}
    {before : VFrame} {effect : FlowGraph.Effect} (found : body.items[position]? = some item)
    (done : graph.effect method position item before = .ok effect) :
    effect.after.depth ≤ before.depth ∨ ∃ edge ∈ effect.edges, edge.2 = effect.after := by
  have passedOn {target : Nat} (next : body.Successor position target) :
      ∃ edge ∈ effect.edges, edge.2 = effect.after :=
    ⟨(target, effect.after), (described.mem_edges found done _ _).mpr (.successor next), rfl⟩
  cases item with
  | label | line | instruction => exact .inr (passedOn (.next found rfl))
  | branch jump =>
    obtain ⟨after, afterFound, later⟩ := Outcome.bind_ok.mp done
    obtain ⟨targets, targetsFound, same⟩ := Outcome.bind_ok.mp later
    have jumps {label : Label} (member : label ∈ jump.targets) :
        ∃ edge ∈ effect.edges, edge.2 = effect.after := by
      obtain ⟨target, placed⟩ := described.jump_placed targetsFound member
      exact passedOn (.jump found member placed)
    have lowers (lower : FrameM.Lowers (FrameM.branch method.descriptor.result jump)) :
        effect.after.depth ≤ before.depth := by
      cases Outcome.pure_ok.mp same
      obtain ⟨⟨_, _⟩, ran, ended⟩ := Outcome.bind_ok.mp (Outcome.mapError_ok.mp afterFound)
      cases Outcome.pure_ok.mp ended
      exact lower ran
    cases jump with
    | jumpIf => exact .inr (passedOn (.next found rfl))
    | goto | tableSwitch | lookupSwitch => exact .inr (jumps List.mem_cons_self)
    | ret kind => exact .inl (lowers (FrameM.lowers_ret _ kind))
    | athrow => exact .inl (lowers (FrameM.lowers_athrow _))

theorem foldl_max_le_iff {depths : List Nat} {most limit : Nat} :
    depths.foldl max most ≤ limit ↔ most ≤ limit ∧ ∀ depth ∈ depths, depth ≤ limit := by
  induction depths generalizing most with
  | nil => simp
  | cons depth rest ih => rw [List.foldl_cons, ih, Nat.max_le, List.forall_mem_cons, and_assoc]

/-- A step asks for no more room than items that can be reached need. -/
theorem step_maximums (described : graph.Describes body) {typing final : Typing} {position : Nat}
    {pending : List Nat} {next : FrameSearch} {stack locals : Nat}
    (invariant : Invariant (fun a b => a.depth = b.depth) graph body method
      ⟨typing, position :: pending⟩)
    (done : step hierarchy graph method position ⟨typing, pending⟩ = .ok next)
    (held : ∀ {position frame}, Holds (fun a b => a.depth = b.depth) next.typing position frame →
      Holds (fun a b => a.depth = b.depth) final position frame)
    (depths : ∀ position frame, final.frameAt position = some frame → frame.depth ≤ stack)
    (stores : ∀ position kind slot, final.isReachable position = true →
      body.items[position]? = some (.instruction (.store kind slot)) →
        slot.toNat + kind.width ≤ locals)
    (stackRoom : typing.maxStack ≤ stack) (localsRoom : typing.maxLocals ≤ locals) :
    next.typing.maxStack ≤ stack ∧ next.typing.maxLocals ≤ locals := by
  have ascends := hierarchy.ascends_depth
  rcases step_follows ascends described invariant.size done with rfl |
    ⟨before, item, effect, beforeFound, itemFound, effectFound, -, -, followed⟩
  · exact ⟨stackRoom, localsRoom⟩
  have bounded {position : Nat} {frame : VFrame}
      (isHeld : Holds (fun a b => a.depth = b.depth) next.typing position frame) :
      frame.depth ≤ stack := by
    obtain ⟨last, found, same⟩ := held isHeld
    exact same ▸ depths position last found
  have here : Holds (fun a b => a.depth = b.depth) next.typing position before :=
    followed.grows.holds ascends ⟨before, beforeFound, rfl⟩
  have passed : ∀ edge ∈ effect.edges, edge.2.depth ≤ stack := fun edge member =>
    bounded (followed.held edge member)
  rw [← followed.grows.maxStack, ← followed.grows.maxLocals]
  constructor
  · have after : effect.after.depth ≤ stack := by
      rcases effect_depth described itemFound effectFound with lower | ⟨edge, member, same⟩
      · exact lower.trans (bounded here)
      · exact same ▸ passed edge member
    refine foldl_max_le_iff.mpr
      ⟨Nat.max_le.mpr ⟨stackRoom, Nat.max_le.mpr ⟨bounded here, after⟩⟩, fun depth member => ?_⟩
    obtain ⟨edge, isEdge, rfl⟩ := List.mem_map.mp member
    exact passed edge isEdge
  · refine Nat.max_le.mpr ⟨localsRoom, ?_⟩
    have room := (invariant.roomy position before beforeFound).trans localsRoom
    generalize locals_eq : effect.after.locals = after
    have change := FlowGraph.after_localsStep (effect_after effectFound)
    rw [locals_eq] at change
    cases change with
    | kept => exact room
    | @stored kind slot type isStore width =>
      obtain ⟨last, lastFound, -⟩ := held here
      have live : final.isReachable position = true := by simp [Typing.isReachable, lastFound]
      rw [length_storeLocal, width]
      exact Nat.max_le.mpr ⟨room, stores position kind slot live (isStore ▸ itemFound)⟩
    | initialized => simpa using room

theorem run_maximums (described : graph.Describes body) {fuel : Nat}
    {search final : FrameSearch} {stack locals : Nat}
    (invariant : Invariant (fun a b => a.depth = b.depth) graph body method search)
    (done : run hierarchy graph method fuel search = .ok final)
    (depths : ∀ position frame, final.typing.frameAt position = some frame → frame.depth ≤ stack)
    (stores : ∀ position kind slot, final.typing.isReachable position = true →
      body.items[position]? = some (.instruction (.store kind slot)) →
        slot.toNat + kind.width ≤ locals)
    (stackRoom : search.typing.maxStack ≤ stack) (localsRoom : search.typing.maxLocals ≤ locals) :
    final.typing.maxStack ≤ stack ∧ final.typing.maxLocals ≤ locals := by
  have ascends := hierarchy.ascends_depth
  induction fuel generalizing search with
  | zero =>
    cases done
    exact ⟨stackRoom, localsRoom⟩
  | succ fuel ih =>
    obtain ⟨typing, pending⟩ := search
    cases pending with
    | nil =>
      cases done
      exact ⟨stackRoom, localsRoom⟩
    | cons position pending =>
      obtain ⟨next, stepped, later⟩ := Outcome.bind_ok.mp done
      have nextInvariant := step_invariant ascends described invariant stepped
      have onwards := run_continues ascends described nextInvariant.size later
      obtain ⟨nextStack, nextLocals⟩ := step_maximums described invariant stepped onwards.held depths
        stores stackRoom localsRoom
      exact ih nextInvariant later nextStack nextLocals

end FrameSearch

namespace FrameM

/-- An instruction that goes well finds the local that it reads, and leaves room for the one that it
writes. -/
theorem access_inside {thisClass : BinaryName} {position stop limit : Nat} {step : SymInstruction}
    {before after : VFrame} (done : instruction thisClass position step before = .ok ((), after))
    (access : step.localEnd? = some stop) (fits : FitsIn limit before.locals)
    (room : after.locals.length ≤ limit) : stop ≤ limit := by
  have reads {slot : UInt16} {type : VType} {rest : VFrame}
      (found : getLocal slot before = .ok (type, rest)) : slot.toNat + type.width ≤ limit := by
    unfold getLocal at found
    split at found
    · rename_i here
      cases found
      obtain ⟨inside, same⟩ := List.getElem?_eq_some_iff.mp here
      have := fits slot.toNat inside
      rwa [← List.getElem_eq_getD (h := inside), same] at this
    · cases found
  have expects {slot : UInt16} {expected : VType} {rest : VFrame}
      (found : expectLocal slot expected before = .ok ((), rest)) :
      slot.toNat + expected.width ≤ limit := by
    obtain ⟨⟨type, middle⟩, ran, checked⟩ := Outcome.bind_ok.mp found
    simp only at checked
    split at checked
    · rename_i same
      exact same ▸ reads ran
    · cases checked
  cases step with
  | load kind slot =>
    cases access
    change load kind slot before = _ at done
    unfold load at done
    cases primitive : kind.primitive? with
    | some type =>
      simp only [primitive] at done
      obtain ⟨⟨_, middle⟩, ran, -⟩ := Outcome.bind_ok.mp done
      exact SlotKind.width_of_primitive primitive ▸ expects ran
    | none =>
      simp only [primitive] at done
      obtain ⟨⟨type, middle⟩, ran, checked⟩ := Outcome.bind_ok.mp done
      simp only at checked
      split at checked
      · rename_i reference
        rw [SlotKind.width_of_reference primitive, ← VType.width_of_isReference reference]
        exact reads ran
      · cases checked
  | store kind slot =>
    cases access
    obtain ⟨type, rest, loads, -, rfl⟩ := store_ok done
    rw [length_storeLocal, loads.width_eq] at room
    exact (Nat.le_max_right _ _).trans room
  | increment slot amount =>
    cases access
    exact expects done
  | _ => cases access

end FrameM

namespace Body

variable {body : Body} {method : MethodContext} {hierarchy : Hierarchy} {typing : Typing}

section Bounds

variable (found : body.inferFrames method hierarchy = .ok typing)

include found

/-- An item that can be reached can take its frame, and there is room for what it does. -/
theorem inferFrames_after {position : Nat} {before : VFrame}
    (beforeFound : typing.frameAt position = some before) :
    before.depth ≤ typing.maxStack ∧ ∃ item after, body.items[position]? = some item ∧
      FlowGraph.after method position before item = .ok after ∧
      after.depth ≤ typing.maxStack ∧ after.locals.length ≤ typing.maxLocals := by
  obtain ⟨graph, described, invariant⟩ :=
    FrameSearch.inferFrames_invariant (FrameSearch.ascends_trivially hierarchy) found
  obtain ⟨item, effect, settled⟩ := invariant.settled beforeFound List.not_mem_nil
  obtain ⟨after, afterFound, later⟩ := Outcome.bind_ok.mp settled.done
  obtain ⟨targets, -, ended⟩ := Outcome.bind_ok.mp later
  cases Outcome.pure_ok.mp ended
  obtain ⟨depthBefore, depthAfter⟩ := Nat.max_le.mp settled.depths
  exact ⟨depthBefore, item, after, described.getElem? position ▸ settled.found,
    Outcome.mapError_ok.mp afterFound, depthAfter, settled.locals⟩

theorem inferFrames_stackNeed {need : Nat} (needed : typing.StackNeed body method need) :
    need ≤ typing.maxStack := by
  cases needed with
  | before beforeFound => exact (inferFrames_after found beforeFound).1
  | after beforeFound isItem done =>
    obtain ⟨-, _, _, isOther, otherDone, depth, -⟩ := inferFrames_after found beforeFound
    cases isItem.symm.trans isOther
    cases done.symm.trans otherDone
    exact depth

theorem inferFrames_parameters :
    method.descriptor.parameterSlots (!method.isStatic) ≤ typing.maxLocals := by
  obtain ⟨graph, described, invariant⟩ :=
    FrameSearch.inferFrames_invariant (FrameSearch.ascends_trivially hierarchy) found
  exact VFrame.length_initial method ▸ invariant.parameters

theorem inferFrames_accesses {stop : Nat} (accesses : typing.Accesses body stop) :
    stop ≤ typing.maxLocals := by
  obtain ⟨position, step, live, isStep, access⟩ := accesses
  obtain ⟨before, beforeFound⟩ := Option.isSome_iff_exists.mp live
  have entry : FitsIn typing.maxLocals (VFrame.initial method).locals := fun slot inside =>
    ((VFrame.initial_fitsIn method slot inside).trans_eq (VFrame.length_initial method)).trans
      (inferFrames_parameters found)
  have fits := inferFrames_locals found (fitsIn_upheld hierarchy _) (Nat.le_refl _) entry beforeFound
  obtain ⟨-, _, after, isItem, done, -, room⟩ := inferFrames_after found beforeFound
  cases isStep.symm.trans isItem
  obtain ⟨⟨_, _⟩, ran, ended⟩ := Outcome.bind_ok.mp done
  cases Outcome.pure_ok.mp ended
  exact FrameM.access_inside ran access fits room

/-- No more room is asked for than the frames, the stores and the parameters need. -/
theorem inferFrames_maximums_le {stack locals : Nat}
    (depths : ∀ position frame, typing.frameAt position = some frame → frame.depth ≤ stack)
    (accesses : ∀ stop, typing.Accesses body stop → stop ≤ locals)
    (parameters : method.descriptor.parameterSlots (!method.isStatic) ≤ locals) :
    typing.maxStack ≤ stack ∧ typing.maxLocals ≤ locals := by
  obtain ⟨graph, search, described, started, ran⟩ := FrameSearch.inferFrames_cases found
  have start := FrameSearch.start_invariant hierarchy.ascends_depth described started
  obtain ⟨-, rfl⟩ := FrameSearch.start_cases started
  refine FrameSearch.run_maximums described start ran depths (fun position kind slot live isStore =>
    accesses _ ⟨position, _, live, isStore, rfl⟩) (Nat.zero_le _) ?_
  exact (VFrame.length_initial method).trans_le parameters

/-- There is room for the stack within a limit exactly if no item that can be reached needs more. -/
theorem inferFrames_maxStack {limit : Nat} :
    typing.maxStack ≤ limit ↔ ∀ need, typing.StackNeed body method need → need ≤ limit := by
  constructor
  · intro room need needed
    exact (inferFrames_stackNeed found needed).trans room
  · intro needs
    exact (inferFrames_maximums_le found (fun _ _ isFrame => needs _ (.before isFrame))
      (fun _ => inferFrames_accesses found) (inferFrames_parameters found)).1

/-- There is room for the locals within a limit exactly if there is for the parameters and for all
that is read or written. -/
theorem inferFrames_maxLocals {limit : Nat} : typing.maxLocals ≤ limit ↔
    method.descriptor.parameterSlots (!method.isStatic) ≤ limit ∧
      ∀ stop, typing.Accesses body stop → stop ≤ limit := by
  constructor
  · intro room
    exact ⟨(inferFrames_parameters found).trans room,
      fun stop accesses => (inferFrames_accesses found accesses).trans room⟩
  · rintro ⟨parameters, accesses⟩
    exact (inferFrames_maximums_le found
      (fun _ _ isFrame => inferFrames_stackNeed found (.before isFrame)) accesses parameters).2

end Bounds

end Body

end ClassWeave
