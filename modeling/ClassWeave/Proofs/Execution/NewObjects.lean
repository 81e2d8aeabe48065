import ClassWeave.Proofs.Execution.Exchanges
import ClassWeave.Proofs.Execution.Paths
import ClassWeave.Proofs.Typing.NewObjects

/-!
# New objects in a run

The frames that are inferred say which values are new objects, and which item created them. In a run,
all values with the type of one item are the object that the item created last, so a constructor call
only initializes the object that it is called on.
-/

namespace ClassWeave

variable {ρ η : Type}

/-- The value has the width of the type. If the type is that of a new object, its item made the
value. -/
structure Value.Fits (made : Nat → Value ρ → Prop) (type : VType) (value : Value ρ) : Prop where
  width : type.width = value.width
  new {source : Nat} : type = .uninitialized source → made source value

/-- The stack and the usable locals hold values of the types in the frame. -/
structure Store.Fits (made : Nat → Value ρ → Prop) (frame : VFrame) (store : Store ρ η) : Prop where
  stack : List.Forall₂ (Value.Fits made) frame.stack store.stack
  locals (slot : UInt16) : frame.locals.getD slot.toNat .top = .top ∨
    Value.Fits made (frame.locals.getD slot.toNat .top) (store.locals slot)
  /-- There is a local for each slot that is known to hold a new object. -/
  inside {index source : Nat} :
    frame.locals.getD index .top = .uninitialized source → index < UInt16.size

variable {made other : Nat → Value ρ → Prop}

section Fits

variable {type : VType} {value : Value ρ}

theorem Value.Fits.mono (fits : Value.Fits made type value)
    (implies : ∀ {source value}, made source value → other source value) :
    Value.Fits other type value :=
  ⟨fits.width, fun new => implies (fits.new new)⟩

theorem Value.Fits.alike {first second : VType} (fits : Value.Fits made first value)
    (alike : VType.Alike first second) : Value.Fits made second value where
  width := alike.width_eq.symm.trans fits.width
  new := by
    rintro source rfl
    exact fits.new alike.uninitialized

/-- A type that no item gives to its objects only asks for the width. -/
theorem Value.fits_of_width (width : type.width = value.width)
    (fixed : FrameM.Fixed type) : Value.Fits made type value :=
  ⟨width, fun {source} new => (fixed.ne_uninitialized source new).elim⟩

theorem Value.Fits.replaced {thisClass : BinaryName} {constructor : MethodRef} {old new : VType}
    (initializes : Initializes thisClass constructor old new) (fits : Value.Fits made type value) :
    Value.Fits made (FrameM.replaced old new type) value where
  width := by
    rw [FrameM.width_replaced initializes.isReference.1 initializes.isReference.2, fits.width]
  new := by
    intro source same
    unfold FrameM.replaced at same
    split at same
    · cases initializes <;> cases same
    · exact fits.new same

theorem Value.forall₂_fits_of_widths {types : List VType} {values : List (Value ρ)}
    (widths : types.map VerificationType.width = values.map Value.width)
    (fixed : ∀ type ∈ types, FrameM.Fixed type) :
    List.Forall₂ (Value.Fits made) types values := by
  induction types generalizing values with
  | nil =>
    cases List.map_eq_nil_iff.mp widths.symm
    exact .nil
  | cons type types ih =>
    cases values with
    | nil => cases widths
    | cons value values =>
      obtain ⟨width, widths⟩ := List.cons.inj widths
      rw [List.forall_mem_cons] at fixed
      exact .cons (fits_of_width width fixed.1) (ih widths fixed.2)

end Fits

namespace Store.Fits

variable {store : Store ρ η} {before after : VFrame}

theorem mono (fits : store.Fits made before)
    (implies : ∀ {source value}, made source value → other source value) :
    store.Fits other before where
  stack := fits.stack.imp fun _ _ each => each.mono implies
  locals slot := (fits.locals slot).imp_right fun each => each.mono implies
  inside := fits.inside

theorem alike (fits : store.Fits made before) (alike : before.Alike after) :
    store.Fits made after where
  stack := forall₂_comp alike.stack.flip fits.stack fun _ _ _ same each => each.alike same
  locals slot := by
    rcases alike.locals slot.toNat with unused | same
    · exact .inl unused
    · rcases fits.locals slot with unused | each
      · rw [unused] at same
        exact .inl (same.resolve_right fun both => nomatch both.1).symm
      · exact .inr (each.alike same)
  inside {index source} new := by
    rcases alike.locals index with unused | same
    · cases unused.symm.trans new
    · exact fits.inside (new ▸ same).uninitialized

/-- Where no new object of an item is known, nothing has to be known of the item. -/
theorem lacks {barrier : Nat}
    (fits : store.Fits (fun source value => source ≠ barrier → made source value) before)
    (lacks : before.Lacks barrier) : store.Fits made before where
  stack := by
    have known (type : VType) (member : type ∈ before.stack) : type ≠ .uninitialized barrier :=
      fun same => lacks.stack (same ▸ member)
    have each := (List.forall₂_and_left _ _).mpr ⟨known, fits.stack⟩
    refine each.imp fun type value both => ⟨both.2.width, fun {source} new => ?_⟩
    exact both.2.new new fun same => both.1 (same ▸ new)
  locals slot := (fits.locals slot).imp_right fun each => ⟨each.width, fun {source} new =>
    each.new new fun same => lacks.locals (List.mem_of_getElem?
      (getElem?_of_getD nofun (same ▸ new)))⟩
  inside := fits.inside

theorem at_stack {index : Nat} {type : VType} (fits : store.Fits made before)
    (found : before.stack[index]? = some type) :
    ∃ value, store.stack[index]? = some value ∧ Value.Fits made type value := by
  obtain ⟨inside, rfl⟩ := List.getElem?_eq_some_iff.mp found
  have within := fits.stack.length_eq ▸ inside
  exact ⟨_, List.getElem?_eq_getElem within, fits.stack.get inside within⟩

theorem at_local {index source : Nat} (fits : store.Fits made before)
    (found : before.locals[index]? = some (.uninitialized source)) :
    ∃ slot : UInt16, slot.toNat = index ∧
      Value.Fits made (.uninitialized source) (store.locals slot) := by
  have holds : before.locals.getD index .top = .uninitialized source := getD_of_getElem? found
  have isIndex := UInt16.toNat_ofNat_of_lt' (fits.inside holds)
  have each := fits.locals (UInt16.ofNat index)
  rw [isIndex, holds] at each
  exact ⟨_, isIndex, each.resolve_left nofun⟩

/-- A value that is stored has the type that the frame gives to the local. -/
theorem stored {type : VType} {value : Value ρ} {slot : UInt16} {rest : List VType}
    {values : List (Value ρ)} {heap : η} (fits : store.Fits made before)
    (here : Value.Fits made type value) (below : List.Forall₂ (Value.Fits made) rest values) :
    Store.Fits made ⟨storeLocal before.locals slot.toNat type, rest⟩
      ⟨values, Function.update store.locals slot value, heap⟩ where
  stack := below
  locals other := by
    simp only [storeLocal_getD]
    by_cases same : other = slot
    · subst same
      rw [if_pos rfl, Function.update_self]
      exact .inr here
    · rw [if_neg fun toNat => same (UInt16.toNat_inj.mp toNat), Function.update_of_ne same]
      split
      · exact .inl rfl
      · split
        · exact .inl rfl
        · exact fits.locals other
  inside {index source} new := by
    rw [storeLocal_getD] at new
    split at new
    · rename_i same
      exact same ▸ slot.toNat_lt
    · split at new
      · cases new
      · split at new
        · cases new
        · exact fits.inside new

/-- A local may be given another value of its type. -/
theorem updated {value : Value ρ} {slot : UInt16} (fits : store.Fits made before)
    (here : Value.Fits made (before.locals.getD slot.toNat .top) value) :
    Store.Fits made before { store with locals := Function.update store.locals slot value } where
  stack := fits.stack
  locals other := by
    simp only
    by_cases same : other = slot
    · subst same
      rw [Function.update_self]
      exact .inr here
    · rw [Function.update_of_ne same]
      exact fits.locals other
  inside := fits.inside

/-- A constructor call asks for less than what is known of the object. -/
theorem initialized {thisClass : BinaryName} {constructor : MethodRef} {old new : VType}
    (initializes : Initializes thisClass constructor old new) (fits : store.Fits made before) :
    store.Fits made ⟨before.locals.map (FrameM.replaced old new),
      before.stack.map (FrameM.replaced old new)⟩ where
  stack := List.forall₂_map_left_iff.mpr (fits.stack.imp fun _ _ each => each.replaced initializes)
  locals slot := by
    simp only [getD_initialized initializes.isReference.1]
    rcases fits.locals slot with unused | each
    · rw [unused]
      exact .inl (replaced_top initializes.isReference.1)
    · exact .inr (each.replaced initializes)
  inside {index source} new := by
    rw [getD_initialized initializes.isReference.1] at new
    unfold FrameM.replaced at new
    split at new
    · cases initializes <;> cases new
    · exact fits.inside new

end Store.Fits

section Steps

variable {runtime : Runtime ρ η} {thisClass : BinaryName} {position : Nat} {before after : VFrame}
  {store later : Store ρ η}

/-- An instruction turns a store that fits the frame before it into one that fits the frame after it,
if what it creates is made by it. -/
theorem FrameStep.fits_instruction {instruction : SymInstruction} (orderly : runtime.Orderly)
    (step : FrameStep thisClass position before (.instruction instruction) after)
    (done : runtime.Completes instruction store later) (fits : store.Fits made before)
    (creates : ∀ type object, instruction = .onClass .new type →
      later.stack = .reference (some object) :: store.stack →
        made position (.reference (some object))) : later.Fits made after := by
  -- most instructions leave the locals alone
  have keeps {stack : List VType} (same : later.locals = store.locals)
      (all : List.Forall₂ (Value.Fits made) stack later.stack) :
      later.Fits made ⟨before.locals, stack⟩ :=
    ⟨all, fun slot => same ▸ fits.locals slot, fits.inside⟩
  cases step with
  | mark mark => cases mark
  | exchange known ordinary widths fixed =>
    obtain ⟨values, valueWidths, top, same⟩ := orderly.exchange known done
    refine keeps same (top ▸ List.rel_append ?_ (List.forall₂_drop _ fits.stack))
    exact Value.forall₂_fits_of_widths (widths.trans valueWidths.symm) fixed
  | rearrange rearranges =>
    obtain ⟨all, same⟩ := orderly.rearrange (fun each => each.width) fits.stack rearranges done
    exact keeps same all
  | load loads found =>
    rename_i kind slot type
    obtain rfl : later = store.push (store.locals slot) := done
    refine keeps rfl (.cons ?_ fits.stack)
    have holds : before.locals.getD slot.toNat .top = type := getD_of_getElem? found
    exact holds ▸ (fits.locals slot).resolve_left (holds ▸ loads.ne_top)
  | store loads top =>
    rename_i kind slot type rest
    obtain ⟨value, values, stackTop, rfl⟩ := done
    have all := fits.stack
    rw [top, stackTop] at all
    obtain ⟨here, below⟩ := List.forall₂_cons.mp all
    exact fits.stored here below
  | increment found =>
    rename_i slot amount
    obtain ⟨number, -, rfl⟩ := done
    refine fits.updated ?_
    rw [getD_of_getElem? found]
    exact Value.fits_of_width rfl fun _ => rfl
  | create =>
    obtain ⟨object, top, same⟩ := orderly.create done
    refine keeps same (top ▸ .cons ⟨rfl, fun {source} new => ?_⟩ fits.stack)
    cases new
    exact creates _ object rfl top
  | construct isConstructor noResult initializes receiver =>
    rename_i constructor old new
    obtain ⟨values, widths, top, same⟩ := orderly.exchange rfl done
    rw [InvokeKind.exchange, noResult] at widths
    cases List.map_eq_nil_iff.mp widths
    have taken : later.Fits made
        ⟨before.locals, before.stack.drop (constructor.descriptor.parameters.length + 1)⟩ := by
      refine keeps same ?_
      rw [top]
      exact List.forall₂_drop _ fits.stack
    exact taken.initialized initializes

theorem FrameStep.fits_branch {jump : Branch Label} {target : Option Label} {rest : List (Value ρ)}
    (step : FrameStep thisClass position before (.branch jump) after)
    (goes : jump.Goes store.stack target rest) (fits : store.Fits made before) :
    { store with stack := rest }.Fits made after := by
  cases step with
  | mark mark => cases mark
  | branch =>
    refine ⟨?_, fits.locals, fits.inside⟩
    rw [goes.stack_eq]
    exact List.forall₂_drop _ fits.stack
  | throw => cases goes

end Steps

/-- On entry there is nothing on the stack, and the parameters have the widths of their types. -/
structure Store.Enters (store : Store ρ η) (method : MethodContext) : Prop where
  stack : store.stack = []
  locals (slot : UInt16) : (VFrame.initial method).locals.getD slot.toNat .top = .top ∨
    ((VFrame.initial method).locals.getD slot.toNat .top).width = (store.locals slot).width

/-- Parameters are no new objects. -/
theorem Store.Enters.fits {store : Store ρ η} {method : MethodContext}
    (enters : store.Enters method) : store.Fits made (VFrame.initial method) := by
  have lacks (source index : Nat) :
      (VFrame.initial method).locals.getD index .top ≠ .uninitialized source := fun new =>
    (VFrame.initial_lacks method source).locals
      (List.mem_of_getElem? (getElem?_of_getD nofun new))
  refine ⟨enters.stack ▸ .nil, fun slot => ?_, fun {index source} new => (lacks source index new).elim⟩
  exact (enters.locals slot).imp_right fun width =>
    ⟨width, fun {source} new => (lacks source slot.toNat new).elim⟩

namespace Body

variable {body : Body} {runtime : Runtime ρ η} {method : MethodContext} {hierarchy : Hierarchy}
  {typing : Typing} {store : Store ρ η}

/-- Control comes to the next item with a store that fits the frame there, if what the item creates is
made by it. -/
theorem Step.fits (typed : body.inferFrames method hierarchy = .ok typing)
    (orderly : runtime.Orderly) {last : MachineState ρ η} {next : Visit ρ η}
    (step : body.Step runtime last next) {frame : VFrame}
    (there : typing.frameAt last.position = some frame) (fits : last.store.Fits made frame)
    (creates : ∀ type object, body.items[last.position]? = some (.instruction (.onClass .new type)) →
      runtime.Completes (.onClass .new type) last.store next.state.store →
        next = ⟨.onward, last.position + 1, next.state.store⟩ →
          next.state.store.stack = .reference (some object) :: last.store.stack →
            made last.position (.reference (some object))) :
    ∃ frame, typing.frameAt next.state.position = some frame ∧ next.state.store.Fits made frame := by
  obtain ⟨item, after, found, done, onward⟩ := inferFrames_passes typed there
  have change := FlowGraph.after_frameStep done
  have goOn {target : Nat} {passed : VFrame} {store : Store ρ η}
      (passes : body.Passes last.position frame after target passed)
      (fits : store.Fits made passed) :
      ∃ frame, typing.frameAt target = some frame ∧ store.Fits made frame := by
    obtain ⟨frame, there, alike⟩ := onward passes
    exact ⟨frame, there, fits.alike alike⟩
  cases step with
  | mark same mark =>
    cases Option.some.inj (found.symm.trans same)
    cases change with
    | mark =>
      exact goOn (.successor (.next found (fallsThrough_of_not_isCode mark))) fits
    | _ => cases mark
  | instruction same completes =>
    cases Option.some.inj (found.symm.trans same)
    refine goOn (.successor (.next found rfl)) (change.fits_instruction orderly completes fits ?_)
    rintro type object rfl top
    exact creates type object found completes rfl top
  | pass same goes =>
    cases Option.some.inj (found.symm.trans same)
    exact goOn (.successor (.next found goes.fallsThrough)) (change.fits_branch goes fits)
  | jump same goes placed =>
    cases Option.some.inj (found.symm.trans same)
    exact goOn (.successor (.jump found goes.mem_targets placed)) (change.fits_branch goes fits)
  | exception same thrown caught placed =>
    obtain ⟨earlier, later, -, ⟨protects, -⟩, -⟩ := caught
    refine goOn (.thrownBefore protects placed) ⟨?_, fits.locals, fits.inside⟩
    exact .cons (Value.fits_of_width rfl fun _ => rfl) .nil

/-- The object that a `new` item at a position created when it was last executed. -/
inductive LastCreated (body : Body) (runtime : Runtime ρ η) (source : Nat) (object : ρ) :
    List (Visit ρ η) → Prop where
  | created {visits : List (Visit ρ η)} {passage : Passage} {before after : Store ρ η}
      {type : RefType} (found : body.items[source]? = some (.instruction (.onClass .new type)))
      (done : runtime.Completes (.onClass .new type) before after)
      (pushed : after.stack = .reference (some object) :: before.stack) :
      LastCreated body runtime source object
        (visits ++ [⟨passage, source, before⟩] ++ [⟨.onward, source + 1, after⟩])
  | later {visits : List (Visit ρ η)} {next : Visit ρ η} (elsewhere : next.state.position ≠ source)
      (earlier : LastCreated body runtime source object visits) :
      LastCreated body runtime source object (visits ++ [next])

section LastCreated

variable {source : Nat} {object other : ρ} {visits : List (Visit ρ η)}

/-- When control comes back to the item, what it created is not the last one any more. -/
theorem LastCreated.elsewhere {last : Visit ρ η}
    (created : body.LastCreated runtime source object (visits ++ [last])) :
    last.state.position ≠ source := by
  generalize same : visits ++ [last] = all at created
  cases created with
  | created =>
    obtain ⟨-, atEnd⟩ := List.append_inj' same rfl
    cases atEnd
    exact Nat.succ_ne_self source
  | later elsewhere =>
    obtain ⟨-, atEnd⟩ := List.append_inj' same rfl
    cases atEnd
    exact elsewhere

/-- There is one object that was created last. -/
theorem LastCreated.unique (first : body.LastCreated runtime source object visits)
    (second : body.LastCreated runtime source other visits) : object = other := by
  induction first with
  | @created visits passage before after type found done pushed =>
    generalize same : visits ++ [⟨passage, source, before⟩] ++ [⟨.onward, source + 1, after⟩] = all
      at second
    cases second with
    | created _ _ otherPushed =>
      obtain ⟨early, atEnd⟩ := List.append_inj' same rfl
      obtain ⟨-, atStart⟩ := List.append_inj' early rfl
      cases atEnd
      cases atStart
      cases pushed.symm.trans otherPushed
      rfl
    | later elsewhere earlier =>
      obtain ⟨rfl, -⟩ := List.append_inj' same rfl
      exact (earlier.elsewhere rfl).elim
  | @later visits next elsewhere earlier ih =>
    generalize same : visits ++ [next] = all at second
    cases second with
    | created =>
      obtain ⟨rfl, -⟩ := List.append_inj' same rfl
      exact (earlier.elsewhere rfl).elim
    | later _ otherEarlier =>
      obtain ⟨rfl, -⟩ := List.append_inj' same rfl
      exact ih otherEarlier

end LastCreated

/-- The value is the object that the item at a position created last. -/
def IsLast (body : Body) (runtime : Runtime ρ η) (visits : List (Visit ρ η)) (source : Nat)
    (value : Value ρ) : Prop :=
  ∃ object, value = .reference (some object) ∧ body.LastCreated runtime source object visits

/-- In a run, what has the type of an item's new objects is the one that was created last. -/
theorem Runs.fits (typed : body.inferFrames method hierarchy = .ok typing)
    (orderly : runtime.Orderly) (enters : store.Enters method) {run : List (Visit ρ η)}
    {here : Visit ρ η} (runs : body.Runs runtime store (run ++ [here])) :
    ∃ frame, typing.frameAt here.state.position = some frame ∧
      here.state.store.Fits (body.IsLast runtime (run ++ [here])) frame := by
  refine Runs.byVisits (motive := fun run here => ∃ frame,
    typing.frameAt here.state.position = some frame ∧
      here.state.store.Fits (body.IsLast runtime (run ++ [here])) frame) ?entered ?stepped runs
  case entered =>
    obtain ⟨first, there, alike⟩ := inferFrames_initial typed
    exact ⟨first, there, enters.fits.alike alike⟩
  case stepped =>
    intro visits last next _ step ih
    obtain ⟨frame, there, fits⟩ := ih
    -- a new round of the item at the next position has begun, so nothing is known of its objects
    have sofar : last.state.store.Fits (fun source value => source ≠ next.state.position →
        body.IsLast runtime (visits ++ [last] ++ [next]) source value) frame :=
      fits.mono fun ⟨object, same, created⟩ elsewhere =>
        ⟨object, same, created.later elsewhere.symm⟩
    obtain ⟨frame, there, fits⟩ := step.fits typed orderly there sofar (by
      rintro type object found done onward pushed -
      obtain ⟨passage, position, before⟩ := last
      rw [onward]
      exact ⟨object, rfl, .created found done pushed⟩)
    exact ⟨frame, there, fits.lacks (inferFrames_lacks typed there)⟩

end Body

/-- The frame after a constructor call on a new object: the arguments and the receiver are taken, and
all that has the type of the object is initialized. -/
def VFrame.constructed (frame : VFrame) (source : Nat) (constructor : MethodRef) : VFrame :=
  let change := FrameM.replaced (.uninitialized source) (.object constructor.owner)
  ⟨frame.locals.map change,
    (frame.stack.drop (constructor.descriptor.parameters.length + 1)).map change⟩

/-- Wherever the frame knows of a new object of an item, the store has a copy of this object. -/
structure Store.CopiesOf (store : Store ρ η) (object : ρ) (frame : VFrame) (source : Nat) : Prop where
  stack {index : Nat} : frame.stack[index]? = some (.uninitialized source) →
    store.stack[index]? = some (.reference (some object))
  locals {index : Nat} : frame.locals[index]? = some (.uninitialized source) →
    ∃ slot : UInt16, slot.toNat = index ∧ store.locals slot = .reference (some object)

namespace Body

variable {body : Body} {runtime : Runtime ρ η}

theorem LastCreated.copies {visits : List (Visit ρ η)} {source : Nat} {object : ρ}
    (created : body.LastCreated runtime source object visits) {store : Store ρ η} {frame : VFrame}
    (fits : store.Fits (body.IsLast runtime visits) frame) : store.CopiesOf object frame source := by
  have isLast {value : Value ρ} (each : Value.Fits (body.IsLast runtime visits) (.uninitialized source)
      value) : value = .reference (some object) := by
    obtain ⟨other, same, otherCreated⟩ := each.new rfl
    rw [same, created.unique otherCreated]
  constructor
  · intro index found
    obtain ⟨value, there, each⟩ := fits.at_stack found
    rw [there, isLast each]
  · intro index found
    obtain ⟨slot, isSlot, each⟩ := fits.at_local found
    exact ⟨slot, isSlot, isLast each⟩

/-- The type of an item's new objects stands for one object. When control comes to the item, nothing
has the type; and where a constructor is called on a new object, all that the call initializes are
copies of the object that the item created last. -/
theorem uninitialized_namesOne {method : MethodContext} {hierarchy : Hierarchy} {typing : Typing}
    (typed : body.inferFrames method hierarchy = .ok typing) :
    (∀ source, body.Reachable source →
      ∃ frame, typing.frameAt source = some frame ∧ frame.Lacks source) ∧
    ∀ (ρ η : Type) (runtime : Runtime ρ η) (entered : Store ρ η) (run : List (Visit ρ η))
      (here : Visit ρ η) (constructor : MethodRef), runtime.Orderly → entered.Enters method →
        body.Runs runtime entered (run ++ [here]) →
          body.items[here.state.position]? = some (.instruction (.invoke .special constructor)) →
            constructor.isConstructor = true →
      ∃ frame, typing.frameAt here.state.position = some frame ∧ ∀ source,
        frame.stack[constructor.descriptor.parameters.length]? = some (.uninitialized source) →
          FlowGraph.after method here.state.position frame
              (.instruction (.invoke .special constructor)) =
                .ok (frame.constructed source constructor) ∧
            ∃ object, body.LastCreated runtime source object (run ++ [here]) ∧
              here.state.store.CopiesOf object frame source := by
  refine ⟨fun source path => ?_, ?_⟩
  · obtain ⟨frame, there⟩ :=
      Option.isSome_iff_exists.mp (((inferFrames_closed typed).2 source).mpr path)
    exact ⟨frame, there, inferFrames_lacks typed there⟩
  intro ρ η runtime entered run here constructor orderly enters runs found isConstructor
  obtain ⟨frame, there, fits⟩ := runs.fits typed orderly enters
  obtain ⟨item, after, same, done, -⟩ := inferFrames_passes typed there
  cases Option.some.inj (same.symm.trans found)
  refine ⟨frame, there, fun source receiver => ⟨?_, ?_⟩⟩
  · rw [done]
    cases FlowGraph.after_frameStep done with
    | mark mark => cases mark
    | exchange _ ordinary => exact (ordinary constructor isConstructor rfl).elim
    | construct _ _ initializes known =>
      cases Option.some.inj (known.symm.trans receiver)
      cases initializes
      rfl
  · obtain ⟨value, -, each⟩ := fits.at_stack receiver
    obtain ⟨object, -, created⟩ := each.new rfl
    exact ⟨object, created, created.copies fits⟩

end Body

/-- What instructions may do when objects are numbered as they are created. -/
inductive Numbering : SymInstruction → Store Nat Nat → List (Value Nat) → Nat → Prop where
  | exchange {step : SymInstruction} {exchange : Exchange} {store : Store Nat Nat}
      {results : List (Value Nat)} (known : step.exchange? = some exchange)
      (widths : results.map Value.width = exchange.leaves) :
      Numbering step store (results ++ store.stack.drop exchange.takes) store.heap
  | rearrange {op : StackOp} {store : Store Nat Nat} {stack : List (Value Nat)}
      (moved : op.rearrange store.stack = some stack) :
      Numbering (.plain (.stack op)) store stack store.heap
  | create {type : RefType} {store : Store Nat Nat} :
      Numbering (.onClass .new type) store (.reference (some store.heap) :: store.stack)
        (store.heap + 1)

def numberingRuntime : Runtime Nat Nat where
  thisClass := .thread
  static _ field := if field.type.width = 2 then .long 0 else .int 0
  isInstance _ _ _ _ := True
  isCaught _ _ _ := true
  completes := Numbering
  throws _ _ _ _ := True

theorem numberingRuntime_orderly : numberingRuntime.Orderly where
  statics heap field := by
    have width := (VType.ofFieldType field.type).width_eq
    rw [FrameM.width_ofFieldType] at width
    rcases width with single | wide
    · simp [numberingRuntime, single, Value.width, Value.isWide]
    · simp [numberingRuntime, wide, Value.width, Value.isWide]
  exchanges done known := by
    cases done with
    | exchange same widths =>
      cases Option.some.inj (same.symm.trans known)
      exact ⟨_, widths, rfl⟩
    | rearrange | create => cases known
  rearranges done := by
    cases done with
    | exchange known => cases known
    | rearrange moved => exact moved
  creates done := by
    cases done with
    | exchange known => cases known
    | create => exact ⟨_, rfl⟩

/-- Creates objects round after round, with a copy of each in the first local. -/
def restarting : Body where
  items := [.label ⟨0⟩, .instruction (.onClass .new (.object .thread)),
    .instruction (.plain (.stack .dup)), .instruction (.store .reference 0),
    .instruction (.invoke .special (.ofClass .thread .init [] none)), .branch (.goto ⟨0⟩)]
  handlers := []
  localVariables := []
  nextLabel := ⟨1⟩

def restartingMethod : MethodContext := ⟨.thread, .clinit, ⟨[], none⟩, true⟩

def restartingTyping : Typing where
  frames :=
    #[some ⟨[], []⟩, some ⟨[], []⟩, some ⟨[], [.uninitialized 1]⟩,
      some ⟨[], [.uninitialized 1, .uninitialized 1]⟩,
      some ⟨[.uninitialized 1], [.uninitialized 1]⟩, some ⟨[VType.ofClass .thread], []⟩]
  maxStack := 2
  maxLocals := 1

theorem restarting_typed :
    restarting.inferFrames restartingMethod .flat = .ok restartingTyping := by
  cbv

def restartingStore (stack : List (Value Nat)) (first : Option Nat) (heap : Nat) : Store Nat Nat :=
  ⟨stack, Function.update (fun _ => .int 0) 0 (.reference first), heap⟩

/-- From the label, control comes to the constructor call with a new object and a copy of it. -/
theorem restarting_round {entered : Store Nat Nat} {run : List (Visit Nat Nat)} {passage : Passage}
    {first : Option Nat} {heap : Nat} (runs : restarting.Runs numberingRuntime entered
      (run ++ [⟨passage, 0, restartingStore [] first heap⟩])) :
    ∃ run, restarting.Runs numberingRuntime entered
      (run ++ [⟨.onward, 4, restartingStore [.reference (some heap)] (some heap) (heap + 1)⟩]) := by
  let object : Value Nat := .reference (some heap)
  have creates : restarting.Step numberingRuntime ⟨1, restartingStore [] first heap⟩
      ⟨.onward, 2, restartingStore [object] first (heap + 1)⟩ :=
    .instruction rfl ⟨.create, rfl⟩
  have copies : restarting.Step numberingRuntime ⟨2, restartingStore [object] first (heap + 1)⟩
      ⟨.onward, 3, restartingStore [object, object] first (heap + 1)⟩ :=
    .instruction rfl ⟨.rearrange rfl, rfl⟩
  have stores : restarting.Step numberingRuntime
      ⟨3, restartingStore [object, object] first (heap + 1)⟩
      ⟨.onward, 4, restartingStore [object] (some heap) (heap + 1)⟩ := by
    refine .instruction rfl ⟨object, [object], rfl, ?_⟩
    rw [restartingStore, restartingStore, Function.update_idem]
  exact ⟨_, (((runs.step (.mark rfl rfl)).step creates).step copies).step stores⟩

theorem restarting_runs : ∃ run, restarting.Runs numberingRuntime (restartingStore [] none 0)
    (run ++ [⟨.onward, 4, restartingStore [.reference (some 1)] (some 1) 2⟩]) := by
  have entered : restarting.Runs numberingRuntime (restartingStore [] none 0)
      ([] ++ [⟨.onward, 0, restartingStore [] none 0⟩]) := .enter
  obtain ⟨run, runs⟩ := restarting_round entered
  have constructs : restarting.Step numberingRuntime
      ⟨4, restartingStore [.reference (some 0)] (some 0) 1⟩
      ⟨.onward, 5, restartingStore [] (some 0) 1⟩ :=
    .instruction rfl ⟨@Numbering.exchange _ ⟨1, []⟩ _ [] rfl rfl, rfl⟩
  have restarts : restarting.Step numberingRuntime ⟨5, restartingStore [] (some 0) 1⟩
      ⟨.leap, 0, restartingStore [] (some 0) 1⟩ := .jump rfl .goto rfl
  exact restarting_round ((runs.step constructs).step restarts)

/-- In the second round, the constructor is called on the object of that round, and so is the copy. -/
theorem restarting_initializesSecond :
    restarting.inferFrames restartingMethod .flat = .ok restartingTyping ∧
      numberingRuntime.Orderly ∧ (restartingStore [] none 0).Enters restartingMethod ∧
      ∃ run frame, restarting.Runs numberingRuntime (restartingStore [] none 0)
          (run ++ [⟨.onward, 4, restartingStore [.reference (some 1)] (some 1) 2⟩]) ∧
        restartingTyping.frameAt 4 = some frame ∧
        restarting.LastCreated numberingRuntime 1 1
          (run ++ [⟨.onward, 4, restartingStore [.reference (some 1)] (some 1) 2⟩]) ∧
        (restartingStore [.reference (some 1)] (some 1) 2).CopiesOf 1 frame 1 := by
  have enters : (restartingStore [] none 0).Enters restartingMethod := ⟨rfl, fun _ => .inl rfl⟩
  obtain ⟨run, runs⟩ := restarting_runs
  obtain ⟨frame, there, names⟩ :=
    (Body.uninitialized_namesOne restarting_typed).2 _ _ _ _ _ _ _ numberingRuntime_orderly enters
      runs rfl rfl
  obtain rfl : frame = ⟨[.uninitialized 1], [.uninitialized 1]⟩ := (Option.some.inj there).symm
  obtain ⟨-, object, created, copies⟩ := names 1 rfl
  have same := @copies.stack 0 rfl
  obtain rfl : object = 1 := by
    cases same
    rfl
  exact ⟨restarting_typed, numberingRuntime_orderly, enters, run, _, runs, there, created, copies⟩

end ClassWeave
