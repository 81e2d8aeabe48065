import ClassWeave.Proofs.Hook.HookedClass

/-!
# The static initializer of a hooked class

The fields of a hook are filled in first of all, in the one static initializer that the class has,
unless the initializer is itself a target.
-/

namespace ClassWeave

namespace Member

variable {constants : ConstantTable} {method : Member}

/-- Is a method named like static initializers? -/
def isInitializer (method : Member) (constants : ConstantTable) : Bool :=
  match method.name constants with
  | .ok name => name = UnqualifiedName.clinit.text
  | .error _ => false

theorem isInitializer_iff {name : String} (named : method.name constants = .ok name) :
    method.isInitializer constants = true ↔ name = UnqualifiedName.clinit.text := by
  unfold isInitializer
  rw [named]
  exact decide_eq_true_iff

/-- The first code of a method is that of a body. The constants that it needs are in the table. -/
def HasCodeOf (method : Member) (constants : ConstantTable) (context : AssemblyContext)
    (body : Body) : Prop :=
  ∃ position attr code before after, method.codePosition? constants = .ok (some position) ∧
    method.attributes[position]? = some attr ∧ attr.info = code.encode ∧
    PoolM.Yields (body.assemble context) before code after ∧ constants.Extends after.table

private theorem positionFrom_set {kind : AttributeKind} {attributes : List Attribute}
    {attr : Attribute} {start index : Nat}
    (found : positionFrom constants kind start attributes = .ok (some (start + index)))
    (named : attr.name constants = .ok kind.name) :
    positionFrom constants kind start (attributes.set index attr)
      = .ok (some (start + index)) := by
  induction attributes generalizing start index with
  | nil => cases found
  | cons first rest ih =>
    obtain ⟨name, firstNamed, found⟩ := Outcome.bind_ok.mp found
    split at found
    · cases index with
      | zero => exact Outcome.bind_ok.mpr ⟨kind.name, named, by rw [if_pos (beq_self_eq_true _)]; rfl⟩
      | succ index =>
        cases found
    · rename_i different
      obtain ⟨further, same, -⟩ := positionFrom_some found
      obtain rfl : index = further + 1 := by omega
      rw [← Nat.add_assoc, Nat.add_right_comm] at found ⊢
      refine Outcome.bind_ok.mpr ⟨name, firstNamed, ?_⟩
      rw [if_neg different]
      exact ih found

theorem codePosition?_set {position : Nat} {attr : Attribute}
    (coded : method.codePosition? constants = .ok (some position))
    (named : attr.name constants = .ok AttributeKind.code.name) :
    Member.codePosition? { method with attributes := method.attributes.set position attr }
      constants = .ok (some position) := by
  have found : positionFrom constants .code 0 method.attributes = .ok (some (0 + position)) := by
    rwa [Nat.zero_add]
  have placed := positionFrom_set found named
  rwa [Nat.zero_add] at placed

end Member

/-- A class has at most one static initializer, which is one that the Java virtual machine runs, and
all its methods have names. -/
structure ClassFile.InitializesOnce (file : ClassFile) : Prop where
  named {method : Member} : method ∈ file.methods →
    ∃ name, method.name file.constants = .ok name
  atMostOne : (file.methods.filter (·.isInitializer file.constants)).length ≤ 1
  proper {method : Member} : method ∈ file.methods → method.isInitializer file.constants = true →
    method.descriptor file.constants = .ok ⟨[], none⟩ ∧
      ∃ position, method.codePosition? file.constants = .ok (some position)

namespace Weaving

variable {weaving : Weaving} {constants : ConstantTable} {method : Member} {woven : Member × Bool}

theorem Assembled.hasCodeOf {name : UnqualifiedName} {descriptor : MethodDescriptor}
    {isStatic : Bool} {body : Body} {attr : Attribute} {position : Nat}
    (assembled : weaving.Assembled constants name descriptor isStatic body attr)
    (coded : method.codePosition? constants = .ok (some position))
    (inside : method.attributes[position]? = some attr) :
    method.HasCodeOf constants ⟨⟨weaving.thisClass, name, descriptor, isStatic⟩,
      weaving.hierarchy, weaving.emitStackMaps⟩ body := by
  obtain ⟨code, before, after, -, yields, grown, encoded⟩ := assembled.encoded
  exact ⟨position, attr, code, before, after, coded, inside, encoded, yields, grown⟩

theorem Woven.isInitializer (weaves : weaving.Woven constants method woven) :
    woven.1.isInitializer constants = method.isInitializer constants := by
  cases weaves <;> rfl

/-- What runs the setup after the weaving is an initializer that did not. -/
theorem Woven.of_setUp (weaves : weaving.Woven constants method woven) (setUp : woven.2 = true) :
    method.isInitializer constants = true ∧ ∃ descriptor position body,
      method.descriptor constants = .ok descriptor ∧ method.HasBody constants position body ∧
      woven.1.HasCodeOf constants ⟨⟨weaving.thisClass, .clinit, descriptor, woven.1.isStatic⟩,
        weaving.hierarchy, weaving.emitStackMaps⟩ (Initializer.prepend weaving.setup body) := by
  cases weaves with
  | kept | codeless | untriggered | hooked => cases setUp
  | @setUp name descriptor position body attr named edit hasBody assembled =>
    have inside : (method.attributes.set position attr)[position]? = some attr :=
      List.getElem?_set_self (Member.codePosition?_some hasBody.coded)
    have coded := Member.codePosition?_set hasBody.coded assembled.named
    exact ⟨(Member.isInitializer_iff named.name).mpr (editFor_setUp.mp edit).2, descriptor, position,
      body, named.descriptor, hasBody, assembled.hasCodeOf coded inside⟩

/-- An initializer that can be run and is not a target runs the setup after the weaving. -/
theorem Woven.setUp_of_isInitializer (weaves : weaving.Woven constants method woven)
    (notTarget : weaving.spec.target? UnqualifiedName.clinit.text ⟨[], none⟩ = none)
    (isInitializer : method.isInitializer constants = true)
    (described : method.descriptor constants = .ok ⟨[], none⟩) {position : Nat}
    (coded : method.codePosition? constants = .ok (some position)) : woven.2 = true := by
  have unhooked {name : String} {descriptor : MethodDescriptor} {target : Target}
      (named : method.Named constants name descriptor) :
      weaving.editFor name descriptor ≠ .hook target := by
    intro edit
    obtain rfl := (Member.isInitializer_iff named.name).mp isInitializer
    cases described.symm.trans named.descriptor
    cases (editFor_hook.mp edit).symm.trans notTarget
  cases weaves with
  | kept named edit =>
    exact absurd ((Member.isInitializer_iff named.name).mp isInitializer) (editFor_keep.mp edit).2
  | codeless named codeless => cases codeless.symm.trans coded
  | untriggered named edit => exact absurd edit (unhooked named)
  | hooked named edit => exact absurd edit (unhooked named)
  | setUp => rfl

theorem IsNewInitializer.hasCodeOf {flags : UInt16}
    (created : weaving.IsNewInitializer constants flags method) :
    method.isInitializer constants = true ∧
      method.HasCodeOf constants ⟨⟨weaving.thisClass, .clinit, ⟨[], none⟩, true⟩,
        weaving.hierarchy, weaving.emitStackMaps⟩ (Initializer.ofSetup weaving.setup) := by
  obtain ⟨attr, attributes, assembled⟩ := created.attributes
  have coded : method.codePosition? constants = .ok (some 0) := by
    rw [Member.codePosition?, attributes]
    exact Outcome.bind_ok.mpr ⟨_, assembled.named, by rw [if_pos (beq_self_eq_true _)]; rfl⟩
  refine ⟨(Member.isInitializer_iff created.named.name).mpr rfl, assembled.hasCodeOf coded ?_⟩
  rw [attributes]
  rfl

end Weaving

/-- The initializer of a class, and what it did before the class was hooked. -/
def ClassFile.InitializedBy (file : ClassFile) (constants : ConstantTable) (items : List Item) :
    Prop :=
  (∃ method ∈ file.methods, method.isInitializer constants = true ∧
    ∃ position body, method.HasBody constants position body ∧ body.items = items) ∨
  ((∀ method ∈ file.methods, method.isInitializer constants = false) ∧
    items = [.branch (.ret .void)])

namespace HookedClass

variable {file hooked : ClassFile} {settings : Settings} {fields : HookFields} {weaving : Weaving}

theorem isInitializer_eq (hookedClass : HookedClass file hooked settings fields weaving)
    (once : file.InitializesOnce) {method : Member} (member : method ∈ file.methods) :
    method.isInitializer hooked.constants = method.isInitializer file.constants := by
  obtain ⟨name, named⟩ := once.named member
  have later := method.name_stable hookedClass.constants named
  rw [Bool.eq_iff_iff, Member.isInitializer_iff named, Member.isInitializer_iff later]

/-- The initializers are those that run the setup. -/
theorem setUp_iff (hookedClass : HookedClass file hooked settings fields weaving)
    (once : file.InitializesOnce)
    (notTarget : weaving.spec.target? UnqualifiedName.clinit.text ⟨[], none⟩ = none)
    {method : Member} {woven : Member × Bool} (member : method ∈ file.methods)
    (weaves : weaving.Woven hooked.constants method woven) :
    woven.2 = method.isInitializer hooked.constants := by
  rw [Bool.eq_iff_iff]
  refine ⟨fun setUp => (weaves.of_setUp setUp).1, fun isInitializer => ?_⟩
  have before := (hookedClass.isInitializer_eq once member).symm.trans isInitializer
  obtain ⟨described, position, coded⟩ := once.proper member before
  exact weaves.setUp_of_isInitializer notTarget isInitializer
    (method.descriptor_stable hookedClass.constants described)
    (method.codePosition?_stable hookedClass.constants coded)

/-- The initializers among the woven methods are those that the initializers before became. -/
theorem initializers (hookedClass : HookedClass file hooked settings fields weaving)
    (once : file.InitializesOnce)
    (notTarget : weaving.spec.target? UnqualifiedName.clinit.text ⟨[], none⟩ = none)
    {woven : List (Member × Bool)}
    (weaves : List.Forall₂ (weaving.Woven hooked.constants) file.methods woven) :
    List.Forall₂ (weaving.Woven hooked.constants)
        (file.methods.filter (·.isInitializer hooked.constants)) (woven.filter Prod.snd) ∧
      (woven.map Prod.fst).filter (·.isInitializer hooked.constants) =
        (woven.filter Prod.snd).map Prod.fst := by
  have setUp : List.Forall₂ (fun method woven =>
      method.isInitializer hooked.constants = woven.2 ∧ weaving.Woven hooked.constants method woven)
      file.methods woven := by
    have members := (List.forall₂_and_left _ _).mpr ⟨fun _ member => member, weaves⟩
    exact members.imp fun method woven ⟨member, weaves⟩ =>
      ⟨(hookedClass.setUp_iff once notTarget member weaves).symm, weaves⟩
  constructor
  · refine (List.rel_filter ?_ setUp).imp fun _ _ related => related.2
    rintro method woven ⟨same, -⟩
    simp only [same]
  · rw [List.filter_map]
    refine congrArg (List.map Prod.fst) (List.filter_congr fun woven member => ?_)
    obtain ⟨method, -, same, weaves⟩ := Outcome.exists_left_of_mem setUp member
    exact weaves.isInitializer.trans same

end HookedClass

/-- A class has one static initializer, which runs the setup of the hook fields and then does what
it did before the class was hooked. -/
def ClassFile.InitializesHooks (file hooked : ClassFile) (spec : HookSpec) (settings : Settings) :
    Prop :=
  ∃ thisClass fields initializer items context body,
    file.name = .ok thisClass ∧ HookFields.of thisClass spec.interface = .ok fields ∧
    hooked.methods.filter (·.isInitializer hooked.constants) = [initializer] ∧
    file.InitializedBy hooked.constants items ∧
    context.method.thisClass = thisClass ∧ context.method.name = .clinit ∧
    context.method.descriptor = ⟨[], none⟩ ∧
    body.items =
      Initializer.setup thisClass spec.interface fields settings.loaderSource ++ items ∧
    initializer.HasCodeOf hooked.constants context body

/-- Hook fields are initialized first, unless the initializer is a target. -/
theorem ClassFile.withHooks_initializes {bytes : Bytes} {file hooked : ClassFile} {spec : HookSpec}
    {settings : Settings} {hierarchy : Hierarchy} (parsed : ClassFile.parse bytes = .ok file)
    (once : file.InitializesOnce)
    (notTarget : spec.target? UnqualifiedName.clinit.text ⟨[], none⟩ = none)
    (done : file.withHooks spec settings hierarchy = .ok hooked) :
    file.InitializesHooks hooked spec settings := by
  obtain ⟨fields, weaving, rfl, hookedClass⟩ :=
    ClassFile.withHooks_hookedClass (ClassFile.parse_size parsed) done
  obtain ⟨woven, added, weaves, methods, created⟩ := hookedClass.methods
  obtain ⟨ran, become⟩ := hookedClass.initializers once notTarget weaves
  have atMostOne := once.atMostOne
  rw [← List.filter_congr fun method member => hookedClass.isInitializer_eq once member] at atMostOne
  refine ⟨weaving.thisClass, fields, ?_⟩
  rw [methods, List.filter_append, become, ← hookedClass.setup]
  have anySetUp : woven.any Prod.snd = !(woven.filter Prod.snd).isEmpty := by
    rw [Bool.eq_iff_iff]
    simp [List.any_eq_true, List.eq_nil_iff_forall_not_mem]
  match initializers : file.methods.filter (·.isInitializer hooked.constants) with
  | [] =>
    rw [initializers, List.forall₂_nil_left_iff] at ran
    rw [ran] at anySetUp ⊢
    rcases created with ⟨setUp, -⟩ | ⟨-, method, rfl, isNew⟩
    · cases anySetUp.symm.trans setUp
    · obtain ⟨isInitializer, code⟩ := isNew.hasCodeOf
      refine ⟨method, [.branch (.ret .void)], _, _, hookedClass.name, hookedClass.fieldNames, ?_,
        .inr ⟨fun method member => ?_, rfl⟩, rfl, rfl, rfl, rfl, code⟩
      · simp [isInitializer]
      · simpa using List.filter_eq_nil_iff.mp initializers method member
  | [method] =>
    rw [initializers] at ran
    obtain ⟨result, rest, weaves, none, ran⟩ := List.forall₂_cons_left_iff.mp ran
    obtain rfl := List.forall₂_nil_left_iff.mp none
    rw [ran] at anySetUp ⊢
    rcases created with ⟨-, rfl⟩ | ⟨notSetUp, -⟩
    · have member := (List.mem_filter.mp (initializers ▸ List.mem_singleton_self method)).1
      have setUp := (List.mem_filter.mp (ran ▸ List.mem_singleton_self result)).2
      obtain ⟨isInitializer, descriptor, position, body, described, hasBody, code⟩ :=
        weaves.of_setUp setUp
      have before := (hookedClass.isInitializer_eq once member).symm.trans isInitializer
      have proper := method.descriptor_stable hookedClass.constants (once.proper member before).1
      cases proper.symm.trans described
      exact ⟨result.1, body.items, _, _, hookedClass.name, hookedClass.fieldNames, rfl,
        .inl ⟨method, member, isInitializer, position, body, hasBody, rfl⟩, rfl, rfl, rfl, rfl, code⟩
    · cases anySetUp.symm.trans notSetUp
  | _ :: _ :: _ =>
    rw [initializers] at atMostOne
    simp at atMostOne

theorem greeter_initializesOnce : greeter.InitializesOnce := by
  have greet : greeter.constants.utf8 36 = .ok "greet" := by decide +kernel
  have clinit : greeter.constants.utf8 6 = .ok "<clinit>" := by decide +kernel
  have named : ∀ method ∈ greeter.methods,
      ∃ name, method.Named greeter.constants name ⟨[], none⟩ := by
    intro method member
    rcases List.mem_pair.mp member with rfl | rfl
    · exact ⟨_, idle_named rfl greet⟩
    · exact ⟨_, idle_named rfl clinit⟩
  have coded : ∀ method ∈ greeter.methods, method.attributes = [idleCode] := by
    intro method member
    rcases List.mem_pair.mp member with rfl | rfl <;> rfl
  refine ⟨fun member => ?_, by decide +kernel, fun member isInitializer => ⟨?_, 0, ?_⟩⟩
  · exact (named _ member).imp fun name named => named.name
  · exact (named _ member).choose_spec.descriptor
  · exact (idle_hasBody (coded _ member)).coded

theorem greeter_initializes : ClassFile.parse greeter.encode = .ok greeter ∧
    greeter.InitializesOnce ∧
    greeterSpec.target? UnqualifiedName.clinit.text ⟨[], none⟩ = none ∧
    greeter.withHooks greeterSpec greeterSettings .flat = .ok greeterHooked ∧
    greeter.InitializesHooks greeterHooked greeterSpec greeterSettings :=
  have notTarget : greeterSpec.target? UnqualifiedName.clinit.text ⟨[], none⟩ = none := by
    decide +kernel
  ⟨greeter_parsed, greeter_initializesOnce, notTarget, greeter_hooked,
    ClassFile.withHooks_initializes greeter_parsed greeter_initializesOnce notTarget greeter_hooked⟩

/-- A target that is the static initializer, in which the trigger does not occur. -/
def eagerTarget : Target := { greeterTarget with name := .clinit }

def eagerSpec : HookSpec := ⟨greeterSpec.interface, [eagerTarget]⟩

def eagerMethods : List Member :=
  greeter.methods ++ [⟨9, 6, 7, [⟨5, greeterCode.encode⟩]⟩]

private def eagerWeaving : Weaving := { greeterWeaving with spec := eagerSpec }

private theorem eager_greet : WeaveM.Yields (eagerWeaving.weaveMethod ⟨9, 36, 7, [idleCode]⟩)
    greeterPool (⟨9, 36, 7, [idleCode]⟩, false) greeterPool := by
  have text : greeter.constants.utf8 36 = .ok "greet" := by decide +kernel
  have edit : eagerWeaving.editFor "greet" ⟨[], none⟩ = .keep := by decide +kernel
  exact Weaving.weaveMethod_kept (idle_named rfl text) edit

private theorem eager_clinit : WeaveM.Yields (eagerWeaving.weaveMethod ⟨8, 6, 7, [idleCode]⟩)
    greeterPool (⟨8, 6, 7, [idleCode]⟩, false) greeterPool := by
  have text : greeter.constants.utf8 6 = .ok "<clinit>" := by decide +kernel
  have edit : eagerWeaving.editFor "<clinit>" ⟨[], none⟩ = .hook eagerTarget := by decide +kernel
  have untriggered : eagerWeaving.editedBody (.hook eagerTarget) greeterBody = .ok none := by cbv
  exact Weaving.weaveMethod_unchanged (idle_named rfl text) edit (by rintro ⟨⟩)
    (idle_hasBody rfl) untriggered

private theorem eager_created : PoolM.Finds greeter.constants
    (eagerWeaving.newInitializer greeterSettings.initializerFlags)
    ⟨9, 6, 7, [⟨5, greeterCode.encode⟩]⟩ := by
  have name : PoolM.Finds greeter.constants (PoolM.utf8 "<clinit>") 6 := .intern (by decide +kernel)
  have type : PoolM.Finds greeter.constants (PoolM.utf8 "()V") 7 := .intern (by decide +kernel)
  have code : PoolM.Finds greeter.constants (PoolM.attributeOf .code greeterCode.encode)
      ⟨5, greeterCode.encode⟩ :=
    (PoolM.Finds.intern (by decide +kernel)).bind (.pure _)
  exact (greeter_assembled _).bind (name.bind (type.bind (code.bind (.pure _))))

private theorem eager_woven : WeaveM.Yields
    (eagerWeaving.methods greeterSettings.initializerFlags greeter.methods) greeterPool eagerMethods
    greeterPool := by
  refine WeaveM.yields_bind.mpr ⟨greeter.methods.map (·, false), greeterPool, ?_, ?_⟩
  · simp only [greeter, List.mapM_cons, List.mapM_nil]
    refine WeaveM.yields_bind.mpr ⟨_, _, eager_greet, ?_⟩
    refine WeaveM.yields_bind.mpr ⟨_, _, ?_, WeaveM.yields_pure.mpr ⟨rfl, rfl⟩⟩
    exact WeaveM.yields_bind.mpr ⟨_, _, eager_clinit, rfl⟩
  · exact WeaveM.yields_bind.mpr ⟨_, _, WeaveM.yields_lift.mpr eager_created, rfl⟩

/-- If the initializer is a target, there can be two initializers afterwards. -/
theorem eager_twice : ClassFile.parse greeter.encode = .ok greeter ∧ greeter.InitializesOnce ∧
    HookSpec.ofParts greeterSpec.interface [eagerTarget] = .ok eagerSpec ∧
    ∃ hooked, greeter.withHooks eagerSpec greeterSettings .flat = .ok hooked ∧
      ¬ greeter.InitializesHooks hooked eagerSpec greeterSettings := by
  refine ⟨greeter_parsed, greeter_initializesOnce, by decide +kernel, _,
    greeter_withHooks eager_woven, ?_⟩
  rintro ⟨-, -, initializer, -, -, -, -, -, only, -⟩
  have twice : (eagerMethods.filter (·.isInitializer greeter.constants)).length = 2 := by
    decide +kernel
  rw [show eagerMethods.filter (·.isInitializer greeter.constants) = [initializer] from only] at twice
  cases twice

end ClassWeave
