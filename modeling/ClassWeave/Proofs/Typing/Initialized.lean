import ClassWeave.Proofs.Typing.Reachability

/-!
# Where objects are initialized

What merging may change about a reference to an initialized object is the class of the object. It
never makes a new object look initialized, so whether a value on the stack is initialized is the same
on all paths.
-/

namespace ClassWeave

namespace VType

/-- A constructor has run on the object, if there is one. -/
def isInitialized : VType → Bool
  | .null | .object _ => true
  | _ => false

/-- The same types, up to the classes of initialized objects. -/
def Alike (first second : VType) : Prop :=
  first = second ∨ (first.isInitialized = true ∧ second.isInitialized = true)

variable {first second third : VType}

theorem Alike.refl (type : VType) : Alike type type := .inl rfl

theorem Alike.trans (early : Alike first second) (late : Alike second third) :
    Alike first third := by
  rcases early with rfl | ⟨firstDone, secondDone⟩
  · exact late
  · rcases late with rfl | ⟨-, thirdDone⟩
    · exact .inr ⟨firstDone, secondDone⟩
    · exact .inr ⟨firstDone, thirdDone⟩

theorem Alike.isInitialized_eq (alike : Alike first second) :
    first.isInitialized = second.isInitialized := by
  rcases alike with rfl | ⟨firstDone, secondDone⟩
  · rfl
  · rw [firstDone, secondDone]

theorem isReference_of_isInitialized {type : VType} (initialized : type.isInitialized = true) :
    type.isReference = true := by
  cases type <;> first | rfl | cases initialized

theorem Alike.isReference_eq (alike : Alike first second) :
    first.isReference = second.isReference := by
  rcases alike with rfl | ⟨firstDone, secondDone⟩
  · rfl
  · rw [isReference_of_isInitialized firstDone, isReference_of_isInitialized secondDone]

end VType

namespace Hierarchy

theorem mergeTypes_alike {hierarchy : Hierarchy} {a b merged : VType}
    (found : hierarchy.mergeTypes a b = .ok (some merged)) :
    VType.Alike a merged ∧ VType.Alike b merged := by
  unfold mergeTypes at found
  split at found
  · obtain ⟨type, -, same⟩ := Outcome.map_ok.mp found
    cases same
    exact ⟨.inr ⟨rfl, rfl⟩, .inr ⟨rfl, rfl⟩⟩
  · cases found
    exact ⟨.inr ⟨rfl, rfl⟩, .refl _⟩
  · cases found
    exact ⟨.refl _, .inr ⟨rfl, rfl⟩⟩
  · split at found
    · rename_i same
      cases found
      exact ⟨.refl _, same ▸ .refl _⟩
    · cases found

end Hierarchy

namespace VFrame

/-- Locals are alike where the second ones can be used. -/
def LocalsAlike (first second : List VType) : Prop :=
  ∀ slot, second.getD slot .top = .top ∨ VType.Alike (first.getD slot .top) (second.getD slot .top)

theorem LocalsAlike.trans {first second third : List VType} (early : LocalsAlike first second)
    (late : LocalsAlike second third) : LocalsAlike first third := by
  intro slot
  rcases late slot with unused | lateAlike
  · exact .inl unused
  · rcases early slot with unused | earlyAlike
    · rw [unused] at lateAlike
      rcases lateAlike with same | ⟨initialized, -⟩
      · exact .inl same.symm
      · cases initialized
    · exact .inr (earlyAlike.trans lateAlike)

/-- Frames with the same initialized objects, except that more of the locals may be unusable in the
second. -/
structure Alike (first second : VFrame) : Prop where
  stack : List.Forall₂ VType.Alike first.stack second.stack
  locals : LocalsAlike first.locals second.locals

theorem Alike.refl (frame : VFrame) : Alike frame frame where
  stack := List.forall₂_same.mpr fun type _ => .refl type
  locals _ := .inr (.refl _)

theorem Alike.trans {first second third : VFrame} (early : Alike first second)
    (late : Alike second third) : Alike first third where
  stack := forall₂_comp early.stack late.stack fun _ _ _ => VType.Alike.trans
  locals := early.locals.trans late.locals

end VFrame

theorem FrameSearch.ascends_alike (hierarchy : Hierarchy) :
    Ascends hierarchy VFrame.Alike where
  refl := .refl
  trans := .trans
  merge merged := by
    obtain ⟨⟨existing, incoming⟩, locals⟩ :=
      Hierarchy.mergeFrames_each Hierarchy.mergeTypes_alike merged
    exact ⟨⟨existing, fun slot => (locals slot).1⟩, ⟨incoming, fun slot => (locals slot).2⟩⟩

namespace Body

variable {body : Body} {method : MethodContext} {hierarchy : Hierarchy} {typing : Typing}
  {position : Nat} {item : Item}

/-- The frame on entry is known to be like the first one. -/
theorem inferFrames_initial (typed : body.inferFrames method hierarchy = .ok typing) :
    ∃ first, typing.frameAt 0 = some first ∧ (VFrame.initial method).Alike first := by
  obtain ⟨graph, described, invariant⟩ :=
    FrameSearch.inferFrames_invariant (FrameSearch.ascends_alike hierarchy) typed
  exact invariant.entry

/-- An item can take its frame, and the frames that it passes on are like those of the items that
control gets to. -/
theorem inferFrames_passes (typed : body.inferFrames method hierarchy = .ok typing) {before : VFrame}
    (there : typing.frameAt position = some before) :
    ∃ item after, body.items[position]? = some item ∧
      FlowGraph.after method position before item = .ok after ∧
        ∀ {target passed}, body.Passes position before after target passed →
          ∃ next, typing.frameAt target = some next ∧ passed.Alike next := by
  obtain ⟨graph, described, invariant⟩ :=
    FrameSearch.inferFrames_invariant (FrameSearch.ascends_alike hierarchy) typed
  obtain ⟨item, effect, settled⟩ := invariant.settled there List.not_mem_nil
  have found := settled.found
  rw [described.getElem?] at found
  obtain ⟨after, done, later⟩ := Outcome.bind_ok.mp settled.done
  obtain ⟨_, -, rest⟩ := Outcome.bind_ok.mp later
  cases Outcome.pure_ok.mp rest
  exact ⟨item, after, found, Outcome.mapError_ok.mp done, fun passes =>
    settled.held _ ((described.mem_edges found settled.done _ _).mpr passes)⟩

/-- An item can take its frame, and control goes on with a frame that is like the one it leaves. -/
theorem inferFrames_onward (typed : body.inferFrames method hierarchy = .ok typing) {before : VFrame}
    (there : typing.frameAt position = some before) (found : body.items[position]? = some item) :
    ∃ after, FlowGraph.after method position before item = .ok after ∧
      (FlowGraph.fallsThrough item = true →
        ∃ next, typing.frameAt (position + 1) = some next ∧ after.Alike next) := by
  obtain ⟨other, after, same, done, onward⟩ := inferFrames_passes typed there
  cases Option.some.inj (same.symm.trans found)
  exact ⟨after, done, fun falls => onward (.successor (.next found falls))⟩

/-- Control gets to an item that is no label from the item before. -/
theorem inferFrames_previous (typed : body.inferFrames method hierarchy = .ok typing)
    {frame : VFrame} (there : typing.frameAt (position + 1) = some frame)
    (found : body.items[position + 1]? = some item) (noLabel : item.label? = none) :
    ∃ before, typing.frameAt position = some before := by
  have reachable := (inferFrames_closed typed).2
  have path := (reachable (position + 1)).mp (by rw [Typing.isReachable, there]; rfl)
  have notLabel {label : Label} : ¬ body.LabelAt label (position + 1) := by
    intro placed
    cases Option.some.inj (found.symm.trans placed)
    cases noLabel
  generalize same : position + 1 = target at path
  cases path with
  | refl => cases same
  | tail path edge =>
    subst same
    cases edge with
    | exception _ placed => exact (notLabel placed).elim
    | successor next =>
      cases next with
      | jump _ _ placed => exact (notLabel placed).elim
      | next => exact Option.isSome_iff_exists.mp ((reachable position).mpr path)

/-- Control gets to items without labels only from the first of them on. -/
theorem inferFrames_entry (typed : body.inferFrames method hierarchy = .ok typing)
    {items : List Item} (noLabels : ∀ item ∈ items, item.label? = none)
    (placed : body.HasAt position items)
    {index : Nat} (inside : index < items.length) {frame : VFrame}
    (there : typing.frameAt (position + index) = some frame) :
    ∃ entry, typing.frameAt position = some entry := by
  induction index generalizing frame with
  | zero => exact ⟨frame, there⟩
  | succ index ih =>
    have found := List.getElem?_eq_getElem inside
    obtain ⟨before, earlier⟩ := inferFrames_previous typed there (placed _ _ found)
      (noLabels _ (List.mem_of_getElem? found))
    exact ih (Nat.lt_of_succ_lt inside) earlier

end Body

end ClassWeave
