import ClassWeave.Hook.Weaving
import ClassWeave.Proofs.Code.Growth
import ClassWeave.Proofs.Constant.Operands

/-!
# What weaving leaves alone

Methods are woven one after the other, and each finds the constants that those before it have added.
What is said of a method here is said by the constants of the finished class, which tell the same.
-/

namespace ClassWeave

open ConstantTable (Stable)

namespace WeaveM

open PoolM (Grows)

variable {α β : Type}

/-- Taken on a pool, the action goes well, and leaves another pool behind. -/
def Yields (action : WeaveM α) (before : Pool) (value : α) (after : Pool) : Prop :=
  action before = (.ok value, after)

theorem yields_pure {value result : α} {before after : Pool} :
    Yields (pure value) before result after ↔ value = result ∧ before = after :=
  Outcome.pure_apply_ok

theorem yields_bind {action : WeaveM α} {next : α → WeaveM β} {before after : Pool} {result : β} :
    Yields (action >>= next) before result after ↔
      ∃ value middle, Yields action before value middle ∧
        Yields (next value) middle result after :=
  Outcome.bind_apply_ok

theorem lift_apply (action : PoolM α) (pool : Pool) : (liftM action : WeaveM α) pool =
    ((action pool).1.mapError HookFault.classFile, (action pool).2) := by
  simp only [liftM, monadLift, MonadLift.monadLift]
  rcases action pool with ⟨fault | value, middle⟩ <;> rfl

/-- What reads or adds constants goes as well here as on its own. -/
theorem yields_lift {action : PoolM α} {before after : Pool} {result : α} :
    Yields (liftM action) before result after ↔ PoolM.Yields action before result after := by
  rw [Yields, PoolM.Yields, lift_apply]
  rcases action before with ⟨fault | value, middle⟩
  · constructor <;> intro done <;> cases done
  · constructor <;> intro done <;> cases done <;> rfl

theorem yields_liftFault {outcome : Except Fault α} {before after : Pool} {result : α} :
    Yields (liftM (liftM outcome : PoolM α)) before result after ↔
      outcome = .ok result ∧ before = after := by
  rw [yields_lift, PoolM.yields_lift]

theorem yields_liftHookFault {outcome : Except HookFault α} {before after : Pool} {result : α} :
    Yields (liftM outcome) before result after ↔ outcome = .ok result ∧ before = after :=
  Outcome.lift_apply_ok

theorem yields_lookup {query : ConstantTable → Except Fault α} {before after : Pool} {result : α} :
    Yields (liftM (PoolM.lookup query)) before result after ↔
      query before.table = .ok result ∧ before = after := by
  rw [yields_lift]
  exact Prod.mk_inj

theorem grows_lift {action : PoolM α} (grows : Grows action) :
    Grows (liftM action : WeaveM α) := by
  intro pool
  change pool.Grown ((liftM action : WeaveM α) pool).2
  rw [lift_apply]
  exact grows pool

theorem Grows.yields {action : WeaveM α} (grows : Grows action) {before after : Pool} {value : α}
    (done : Yields action before value after) : before.Grown after := by
  have grown := grows before
  rwa [show action.run.run before = (.ok value, after) from done] at grown

/-- Each element has its result, found on a pool between the first and the last. -/
theorem yields_mapM {action : α → WeaveM β} (each : ∀ value, Grows (action value))
    {values : List α} {results : List β} {before after : Pool}
    (done : Yields (values.mapM action) before results after) :
    List.Forall₂ (fun value result => ∃ earlier later, before.Grown earlier ∧
      Yields (action value) earlier result later ∧ later.Grown after) values results := by
  induction values generalizing before results with
  | nil =>
    rw [List.mapM_nil, yields_pure] at done
    obtain ⟨rfl, -⟩ := done
    exact .nil
  | cons value rest ih =>
    simp only [List.mapM_cons, yields_bind, yields_pure] at done
    obtain ⟨result, middle, first, others, last, later, rfl, rfl⟩ := done
    have restGrown := Grows.yields (PoolM.grows_mapM each rest) later
    refine .cons ⟨before, middle, .refl _, first, restGrown⟩ ((ih later).imp ?_)
    rintro value result ⟨earlier, later, grown, done, finished⟩
    exact ⟨earlier, later, (Grows.yields (each _) first).trans grown, done, finished⟩

end WeaveM

namespace Member

/-- The name and the type of a method. -/
structure Named (method : Member) (constants : ConstantTable) (name : String)
    (descriptor : MethodDescriptor) : Prop where
  name : method.name constants = .ok name
  descriptor : method.descriptor constants = .ok descriptor

/-- The body that the code of a method stands for, and where that is among its attributes. -/
structure HasBody (method : Member) (constants : ConstantTable) (position : Nat) (body : Body) :
    Prop where
  coded : method.codePosition? constants = .ok (some position)
  decoded : ∃ attr code, method.attributes[position]? = some attr ∧ attr.decodeCode = .ok code ∧
    Body.ofCode code constants = .ok body

variable {method : Member} {constants : ConstantTable}

theorem HasBody.unique {position position' : Nat} {body body' : Body}
    (one : method.HasBody constants position body)
    (other : method.HasBody constants position' body') : position = position' ∧ body = body' := by
  have samePosition := one.coded.symm.trans other.coded
  cases samePosition
  obtain ⟨attr, code, found, decoded, read⟩ := one.decoded
  obtain ⟨attr', code', found', decoded', read'⟩ := other.decoded
  cases found.symm.trans found'
  cases decoded.symm.trans decoded'
  cases read.symm.trans read'
  exact ⟨rfl, rfl⟩

theorem Named.unique {name name' : String} {descriptor descriptor' : MethodDescriptor}
    (one : method.Named constants name descriptor)
    (other : method.Named constants name' descriptor') :
    name = name' ∧ descriptor = descriptor' := by
  cases one.name.symm.trans other.name
  cases one.descriptor.symm.trans other.descriptor
  exact ⟨rfl, rfl⟩

theorem positionFrom_some {kind : AttributeKind} {attributes : List Attribute}
    {start position : Nat} (found : positionFrom constants kind start attributes = .ok (some position)) :
    ∃ index, position = start + index ∧ index < attributes.length := by
  induction attributes generalizing start with
  | nil => cases found
  | cons attr rest ih =>
    obtain ⟨name, -, found⟩ := Outcome.bind_ok.mp found
    split at found
    · cases found
      exact ⟨0, rfl, Nat.zero_lt_succ _⟩
    · obtain ⟨index, rfl, inside⟩ := ih found
      exact ⟨index + 1, by omega, Nat.succ_lt_succ inside⟩

theorem codePosition?_some {position : Nat}
    (found : method.codePosition? constants = .ok (some position)) :
    position < method.attributes.length := by
  obtain ⟨index, rfl, inside⟩ := positionFrom_some found
  rwa [Nat.zero_add]

end Member

/-- An attribute holds the code that a body has been assembled into. The constants that it needs are
in the table. -/
structure Attribute.HoldsBody (attr : Attribute) (constants : ConstantTable) (body : Body)
    (code : CodeAttribute) : Prop where
  named : attr.name constants = .ok AttributeKind.code.name
  assembled : ∃ context before after, before.Sound ∧
    PoolM.Yields (body.assemble context) before code after ∧ constants.Extends after.table
  info : attr.info = code.encode

namespace Weaving

open PoolM (Grows)

variable {weaving : Weaving}

/-- An attribute holds the code of a body. The constants that it needs are in the table. -/
structure Assembled (weaving : Weaving) (constants : ConstantTable) (name : UnqualifiedName)
    (descriptor : MethodDescriptor) (isStatic : Bool) (body : Body) (attr : Attribute) :
    Prop where
  named : attr.name constants = .ok AttributeKind.code.name
  encoded : ∃ code before after, before.Sound ∧
    PoolM.Yields (weaving.assemble name descriptor isStatic body) before code after ∧
      constants.Extends after.table ∧ attr.info = code.encode

theorem Assembled.holdsBody {weaving : Weaving} {constants : ConstantTable}
    {name : UnqualifiedName} {descriptor : MethodDescriptor} {isStatic : Bool} {body : Body}
    {attr : Attribute} (assembled : weaving.Assembled constants name descriptor isStatic body attr) :
    ∃ code, attr.HoldsBody constants body code := by
  obtain ⟨code, before, after, sound, yields, kept, info⟩ := assembled.encoded
  exact ⟨code, assembled.named, ⟨_, before, after, sound, yields, kept⟩, info⟩

/-- All that can become of a method, and whether it is an initializer that runs the setup now. -/
inductive Woven (weaving : Weaving) (constants : ConstantTable) (method : Member) :
    Member × Bool → Prop where
  | kept {name : String} {descriptor : MethodDescriptor}
      (named : method.Named constants name descriptor)
      (edit : weaving.editFor name descriptor = .keep) : Woven weaving constants method (method, false)
  | codeless {name : String} {descriptor : MethodDescriptor}
      (named : method.Named constants name descriptor)
      (codeless : method.codePosition? constants = .ok none) :
      Woven weaving constants method (method, false)
  | untriggered {name : String} {descriptor : MethodDescriptor} {target : Target} {position : Nat}
      {body : Body} (named : method.Named constants name descriptor)
      (edit : weaving.editFor name descriptor = .hook target)
      (hasBody : method.HasBody constants position body)
      (untriggered : HookPlan.hooked? ⟨weaving.call, target⟩ body = none) :
      Woven weaving constants method (method, false)
  | hooked {name : String} {descriptor : MethodDescriptor} {target : Target} {position : Nat}
      {body hooked : Body} {attr : Attribute} (named : method.Named constants name descriptor)
      (edit : weaving.editFor name descriptor = .hook target)
      (hasBody : method.HasBody constants position body)
      (triggered : HookPlan.hooked? ⟨weaving.call, target⟩ body = some hooked)
      (assembled : weaving.Assembled constants target.name descriptor method.isStatic hooked attr) :
      Woven weaving constants method
        ({ method with attributes := method.attributes.set position attr }, false)
  | setUp {name : String} {descriptor : MethodDescriptor} {position : Nat} {body : Body}
      {attr : Attribute} (named : method.Named constants name descriptor)
      (edit : weaving.editFor name descriptor = .setUp)
      (hasBody : method.HasBody constants position body)
      (assembled : weaving.Assembled constants .clinit descriptor method.isStatic
        (Initializer.prepend weaving.setup body) attr) :
      Woven weaving constants method
        ({ method with attributes := method.attributes.set position attr }, true)

theorem editMethod_grows (edit : MethodEdit) (method : Member) (descriptor : MethodDescriptor)
    (position : Nat) (code : Attribute) :
    Grows (weaving.editMethod edit method descriptor position code) := by
  refine (WeaveM.grows_lift (PoolM.grows_lift _)).bind fun code =>
    (WeaveM.grows_lift (PoolM.grows_lookup _)).bind fun body =>
      (PoolM.grows_lift _).bind fun edited => ?_
  rcases edited with _ | ⟨name, body⟩
  · exact PoolM.grows_pure _
  · exact (WeaveM.grows_lift (body.assemble_grows _)).bind fun code =>
      (WeaveM.grows_lift (PoolM.interning_attributeOf _ _).grows).bind fun attr =>
        PoolM.grows_pure _

theorem weaveMethod_grows (method : Member) : Grows (weaving.weaveMethod method) := by
  refine (WeaveM.grows_lift (PoolM.grows_lookup _)).bind fun name =>
    (WeaveM.grows_lift (PoolM.grows_lookup _)).bind fun descriptor => ?_
  split
  · exact PoolM.grows_pure _
  · refine (WeaveM.grows_lift (PoolM.grows_lookup _)).bind fun found => ?_
    split
    · exact PoolM.grows_pure _
    · split
      · exact PoolM.grows_pure _
      · exact (editMethod_grows _ _ _ _ _).bind fun edited => PoolM.grows_pure _

theorem editedBody_hook {target : Target} {body : Body} {edited : Option (UnqualifiedName × Body)}
    (done : weaving.editedBody (.hook target) body = .ok edited) :
    (HookPlan.hooked? ⟨weaving.call, target⟩ body).map (fun body => (target.name, body))
      = edited := by
  obtain ⟨_, -, rest⟩ := Outcome.bind_ok.mp done
  exact Outcome.pure_ok.mp rest

/-- Code that is written into a pool is code in every larger table. -/
private theorem assembled_of_yields {name : UnqualifiedName} {descriptor : MethodDescriptor}
    {isStatic : Bool} {body : Body} {code : CodeAttribute} {attr : Attribute}
    {before middle after : Pool} {constants : ConstantTable} (sound : before.Sound)
    (coded : PoolM.Yields (weaving.assemble name descriptor isStatic body) before code middle)
    (made : PoolM.Yields (PoolM.attributeOf .code code.encode) middle attr after)
    (finished : constants.Extends after.table) :
    weaving.Assembled constants name descriptor isStatic body attr := by
  have grown := (body.assemble_grows _).yields coded
  have madeGrown := (PoolM.interning_attributeOf _ _).grows.yields made
  obtain ⟨named, same⟩ := made.attributeOf (grown.sound sound)
  exact ⟨attr.name_stable finished named, code, before, middle, sound, coded,
    finished.trans madeGrown.kept, same⟩

/-- An edit reads the body of the method, and writes the code of the edited one in its place. -/
theorem editMethod_yields {edit : MethodEdit} {method result : Member}
    {descriptor : MethodDescriptor} {position : Nat} {attr : Attribute} {before after : Pool}
    {constants : ConstantTable} (sound : before.Sound)
    (done : WeaveM.Yields (weaving.editMethod edit method descriptor position attr)
      before result after) (finished : constants.Extends after.table) :
    ∃ code body, attr.decodeCode = .ok code ∧ Body.ofCode code constants = .ok body ∧
      (weaving.editedBody edit body = .ok none ∧ result = method ∨
        ∃ name edited attr, weaving.editedBody edit body = .ok (some (name, edited)) ∧
          weaving.Assembled constants name descriptor method.isStatic edited attr ∧
          result = { method with attributes := method.attributes.set position attr }) := by
  have grown := finished.trans (WeaveM.Grows.yields (editMethod_grows _ _ _ _ _) done).kept
  obtain ⟨code, _, decoding, done⟩ := WeaveM.yields_bind.mp done
  obtain ⟨decoded, rfl⟩ := WeaveM.yields_liftFault.mp decoding
  obtain ⟨body, _, reading, done⟩ := WeaveM.yields_bind.mp done
  obtain ⟨read, rfl⟩ := WeaveM.yields_lookup.mp reading
  obtain ⟨edited?, _, editing, done⟩ := WeaveM.yields_bind.mp done
  obtain ⟨edited, rfl⟩ := WeaveM.yields_liftHookFault.mp editing
  refine ⟨code, body, decoded, Body.ofCode_stable code grown read, ?_⟩
  rcases edited? with _ | ⟨name, newBody⟩
  · obtain ⟨rfl, -⟩ := WeaveM.yields_pure.mp done
    exact .inl ⟨edited, rfl⟩
  · obtain ⟨newCode, middle, coded, done⟩ := WeaveM.yields_bind.mp done
    obtain ⟨newAttr, _, made, done⟩ := WeaveM.yields_bind.mp done
    obtain ⟨rfl, rfl⟩ := WeaveM.yields_pure.mp done
    exact .inr ⟨name, newBody, newAttr, edited, assembled_of_yields sound
      (WeaveM.yields_lift.mp coded) (WeaveM.yields_lift.mp made) finished, rfl⟩

theorem weaveMethod_woven {method : Member} {before after : Pool} {woven : Member × Bool}
    {constants : ConstantTable} (sound : before.Sound)
    (done : WeaveM.Yields (weaving.weaveMethod method) before woven after)
    (finished : constants.Extends after.table) : weaving.Woven constants method woven := by
  have grown := finished.trans (WeaveM.Grows.yields (weaveMethod_grows method) done).kept
  obtain ⟨name, _, naming, done⟩ := WeaveM.yields_bind.mp done
  obtain ⟨nameFound, rfl⟩ := WeaveM.yields_lookup.mp naming
  obtain ⟨descriptor, _, describing, done⟩ := WeaveM.yields_bind.mp done
  obtain ⟨descriptorFound, rfl⟩ := WeaveM.yields_lookup.mp describing
  have named : method.Named constants name descriptor :=
    ⟨method.name_stable grown nameFound, method.descriptor_stable grown descriptorFound⟩
  split at done
  · rename_i edit
    obtain ⟨rfl, -⟩ := WeaveM.yields_pure.mp done
    exact .kept named edit
  rename_i notKept
  obtain ⟨position?, _, locating, done⟩ := WeaveM.yields_bind.mp done
  obtain ⟨located, rfl⟩ := WeaveM.yields_lookup.mp locating
  rcases position? with _ | position
  · obtain ⟨rfl, -⟩ := WeaveM.yields_pure.mp done
    exact .codeless named (method.codePosition?_stable grown located)
  have inside := List.getElem?_eq_getElem (Member.codePosition?_some located)
  simp only [inside] at done
  obtain ⟨result, _, editing, done⟩ := WeaveM.yields_bind.mp done
  obtain ⟨rfl, rfl⟩ := WeaveM.yields_pure.mp done
  obtain ⟨code, body, decoded, read, outcome⟩ := editMethod_yields sound editing finished
  have hasBody : method.HasBody constants position body :=
    ⟨method.codePosition?_stable grown located, _, code, inside, decoded, read⟩
  cases edit : weaving.editFor name descriptor with
  | keep => exact absurd edit notKept
  | hook target =>
    rw [edit] at outcome
    rcases outcome with ⟨edited, rfl⟩ | ⟨newName, newBody, attr, edited, assembled, rfl⟩
    · have untriggered := Option.map_eq_none_iff.mp (editedBody_hook edited)
      exact .untriggered named edit hasBody untriggered
    · obtain ⟨hooked, triggered, same⟩ := Option.map_eq_some_iff.mp (editedBody_hook edited)
      cases same
      exact .hooked named edit hasBody triggered assembled
  | setUp =>
    rw [edit] at outcome
    rcases outcome with ⟨edited, -⟩ | ⟨newName, newBody, attr, edited, assembled, rfl⟩
    · cases edited
    · cases edited
      exact .setUp named edit hasBody assembled

/-- The edit of a method with code is all that weaving it comes to. -/
theorem weaveMethod_yields {method result : Member} {name : String} {descriptor : MethodDescriptor}
    {edit : MethodEdit} {position : Nat} {attr : Attribute} {before after : Pool}
    (named : method.Named before.table name descriptor)
    (found : weaving.editFor name descriptor = edit) (notKept : edit ≠ .keep)
    (coded : method.codePosition? before.table = .ok (some position))
    (inside : method.attributes[position]? = some attr)
    (edits : WeaveM.Yields (weaving.editMethod edit method descriptor position attr)
      before result after) :
    WeaveM.Yields (weaving.weaveMethod method) before (result, edit = .setUp) after := by
  refine WeaveM.yields_bind.mpr ⟨_, _, WeaveM.yields_lookup.mpr ⟨named.name, rfl⟩, ?_⟩
  refine WeaveM.yields_bind.mpr ⟨_, _, WeaveM.yields_lookup.mpr ⟨named.descriptor, rfl⟩, ?_⟩
  rw [found]
  split
  · exact absurd rfl notKept
  · refine WeaveM.yields_bind.mpr ⟨_, _, WeaveM.yields_lookup.mpr ⟨coded, rfl⟩, ?_⟩
    simp only [inside]
    exact WeaveM.yields_bind.mpr ⟨_, _, edits, WeaveM.yields_pure.mpr ⟨rfl, rfl⟩⟩

theorem weaveMethod_kept {method : Member} {name : String} {descriptor : MethodDescriptor}
    {pool : Pool} (named : method.Named pool.table name descriptor)
    (kept : weaving.editFor name descriptor = .keep) :
    WeaveM.Yields (weaving.weaveMethod method) pool (method, false) pool := by
  refine WeaveM.yields_bind.mpr ⟨_, _, WeaveM.yields_lookup.mpr ⟨named.name, rfl⟩, ?_⟩
  refine WeaveM.yields_bind.mpr ⟨_, _, WeaveM.yields_lookup.mpr ⟨named.descriptor, rfl⟩, ?_⟩
  rw [kept]
  exact WeaveM.yields_pure.mpr ⟨rfl, rfl⟩

/-- A method stays as it is if the edit changes nothing. -/
theorem weaveMethod_unchanged {method : Member} {name : String} {descriptor : MethodDescriptor}
    {edit : MethodEdit} {position : Nat} {body : Body} {pool : Pool}
    (named : method.Named pool.table name descriptor)
    (found : weaving.editFor name descriptor = edit) (notKept : edit ≠ .keep)
    (hasBody : method.HasBody pool.table position body)
    (unchanged : weaving.editedBody edit body = .ok none) :
    WeaveM.Yields (weaving.weaveMethod method) pool (method, edit = .setUp) pool := by
  obtain ⟨attr, code, inside, decoded, read⟩ := hasBody.decoded
  refine weaveMethod_yields named found notKept hasBody.coded inside ?_
  refine WeaveM.yields_bind.mpr ⟨_, _, WeaveM.yields_liftFault.mpr ⟨decoded, rfl⟩, ?_⟩
  refine WeaveM.yields_bind.mpr ⟨_, _, WeaveM.yields_lookup.mpr ⟨read, rfl⟩, ?_⟩
  refine WeaveM.yields_bind.mpr ⟨_, _, WeaveM.yields_liftHookFault.mpr ⟨unchanged, rfl⟩, ?_⟩
  exact WeaveM.yields_pure.mpr ⟨rfl, rfl⟩

/-- A method gets the code of the body that the edit makes of its own. -/
theorem weaveMethod_changed {method : Member} {name : String} {descriptor : MethodDescriptor}
    {edit : MethodEdit} {position : Nat} {body newBody : Body} {newName : UnqualifiedName}
    {code : CodeAttribute} {attr : Attribute} {before middle after : Pool}
    (named : method.Named before.table name descriptor)
    (found : weaving.editFor name descriptor = edit) (notKept : edit ≠ .keep)
    (hasBody : method.HasBody before.table position body)
    (changed : weaving.editedBody edit body = .ok (some (newName, newBody)))
    (coded : PoolM.Yields (weaving.assemble newName descriptor method.isStatic newBody)
      before code middle)
    (made : PoolM.Yields (PoolM.attributeOf .code code.encode) middle attr after) :
    WeaveM.Yields (weaving.weaveMethod method) before
      ({ method with attributes := method.attributes.set position attr }, edit = .setUp) after := by
  obtain ⟨oldAttr, oldCode, inside, decoded, read⟩ := hasBody.decoded
  refine weaveMethod_yields named found notKept hasBody.coded inside ?_
  refine WeaveM.yields_bind.mpr ⟨_, _, WeaveM.yields_liftFault.mpr ⟨decoded, rfl⟩, ?_⟩
  refine WeaveM.yields_bind.mpr ⟨_, _, WeaveM.yields_lookup.mpr ⟨read, rfl⟩, ?_⟩
  refine WeaveM.yields_bind.mpr ⟨_, _, WeaveM.yields_liftHookFault.mpr ⟨changed, rfl⟩, ?_⟩
  refine WeaveM.yields_bind.mpr ⟨_, _, WeaveM.yields_lift.mpr coded, ?_⟩
  refine WeaveM.yields_bind.mpr ⟨_, _, WeaveM.yields_lift.mpr made, ?_⟩
  exact WeaveM.yields_pure.mpr ⟨rfl, rfl⟩

/-- A static initializer that was created for the setup. -/
structure IsNewInitializer (weaving : Weaving) (constants : ConstantTable) (flags : UInt16)
    (method : Member) : Prop where
  flags : method.flags = flags
  named : method.Named constants UnqualifiedName.clinit.text ⟨[], none⟩
  attributes : ∃ attr, method.attributes = [attr] ∧
    weaving.Assembled constants .clinit ⟨[], none⟩ true (Initializer.ofSetup weaving.setup) attr

theorem newInitializer_grows (flags : UInt16) : Grows (weaving.newInitializer flags) :=
  (Body.assemble_grows _ _).bind fun _ => (PoolM.interning_utf8 _).grows.bind fun _ =>
    (PoolM.interning_utf8 _).grows.bind fun _ =>
      (PoolM.interning_attributeOf _ _).grows.bind fun _ => PoolM.grows_pure _

theorem newInitializer_yields {flags : UInt16} {method : Member} {before after : Pool}
    {constants : ConstantTable} (sound : before.Sound)
    (done : PoolM.Yields (weaving.newInitializer flags) before method after)
    (finished : constants.Extends after.table) :
    weaving.IsNewInitializer constants flags method := by
  obtain ⟨code, coded, codeYields, done⟩ := PoolM.yields_bind.mp done
  obtain ⟨name, nameAdded, nameYields, done⟩ := PoolM.yields_bind.mp done
  obtain ⟨descriptor, descriptorAdded, descriptorYields, done⟩ := PoolM.yields_bind.mp done
  obtain ⟨attr, _, attrYields, done⟩ := PoolM.yields_bind.mp done
  obtain ⟨rfl, rfl⟩ := PoolM.yields_pure.mp done
  have codeGrown := (Body.assemble_grows _ _).yields codeYields
  have nameGrown := (PoolM.interning_utf8 _).grows.yields nameYields
  have descriptorGrown := (PoolM.interning_utf8 _).grows.yields descriptorYields
  have attrGrown := (PoolM.interning_attributeOf _ _).grows.yields attrYields
  have codedSound := codeGrown.sound sound
  have nameFound := nameYields.utf8 codedSound
  have descriptorFound := descriptorYields.utf8 (nameGrown.sound codedSound)
  have afterName := finished.trans (descriptorGrown.trans attrGrown).kept
  have afterDescriptor := finished.trans attrGrown.kept
  obtain ⟨attrNamed, sameInfo⟩ :=
    attrYields.attributeOf (descriptorGrown.sound (nameGrown.sound codedSound))
  refine ⟨rfl, ⟨Stable.utf8 _ afterName nameFound, ?_⟩, attr, rfl,
    attr.name_stable finished attrNamed, code, before, coded, sound, codeYields, ?_, sameInfo⟩
  · exact Outcome.bind_ok.mpr ⟨"()V", Stable.utf8 _ afterDescriptor descriptorFound, by cbv⟩
  · exact afterName.trans nameGrown.kept

theorem methods_grows (flags : UInt16) (before : List Member) :
    Grows (weaving.methods flags before) := by
  refine (PoolM.grows_mapM weaveMethod_grows _).bind fun woven => ?_
  simp only
  split
  · exact PoolM.grows_pure _
  · exact (WeaveM.grows_lift (newInitializer_grows flags)).bind fun _ => PoolM.grows_pure _

/-- Methods are woven in order. An initializer is added if none of them runs the setup. -/
theorem methods_yields {flags : UInt16} {methods hooked : List Member} {before after : Pool}
    {constants : ConstantTable} (sound : before.Sound)
    (done : WeaveM.Yields (weaving.methods flags methods) before hooked after)
    (finished : constants.Extends after.table) :
    ∃ woven added, List.Forall₂ (weaving.Woven constants) methods woven ∧
      hooked = woven.map Prod.fst ++ added ∧
      (woven.any Prod.snd = true ∧ added = [] ∨
        woven.any Prod.snd = false ∧
          ∃ method, added = [method] ∧ weaving.IsNewInitializer constants flags method) := by
  obtain ⟨woven, middle, weaves, done⟩ := WeaveM.yields_bind.mp done
  have weavesGrown := WeaveM.Grows.yields (PoolM.grows_mapM weaveMethod_grows _) weaves
  have each (extended : constants.Extends middle.table) :
      List.Forall₂ (weaving.Woven constants) methods woven := by
    refine (WeaveM.yields_mapM weaveMethod_grows weaves).imp ?_
    rintro method result ⟨earlier, later, grown, yields, laterGrown⟩
    exact weaveMethod_woven (grown.sound sound) yields (extended.trans laterGrown.kept)
  split at done
  · rename_i setUp
    obtain ⟨rfl, rfl⟩ := WeaveM.yields_pure.mp done
    exact ⟨woven, [], each finished, (List.append_nil _).symm, .inl ⟨setUp, rfl⟩⟩
  · rename_i notSetUp
    obtain ⟨method, _, creates, done⟩ := WeaveM.yields_bind.mp done
    obtain ⟨rfl, rfl⟩ := WeaveM.yields_pure.mp done
    have created := WeaveM.yields_lift.mp creates
    have createdGrown := (newInitializer_grows flags).yields created
    exact ⟨woven, [method], each (finished.trans createdGrown.kept), rfl,
      .inr ⟨Bool.eq_false_iff.mpr notSetUp, method, rfl,
        newInitializer_yields (weavesGrown.sound sound) created finished⟩⟩

end Weaving

namespace HookFields

/-- A member declares a field that only the class itself uses, and that is never assigned again. -/
structure Declares (constants : ConstantTable) (field : FieldRef) (member : Member) : Prop where
  flags : member.flags = Access.isPrivate ||| Access.isStatic ||| Access.isFinal
  name : member.name constants = .ok field.name.text
  type : constants.utf8 member.descriptorIndex = .ok field.type.render
  attributes : member.attributes = []

theorem declaration_interning (field : FieldRef) : PoolM.Interning (declaration field) :=
  (PoolM.interning_utf8 _).bind fun _ => (PoolM.interning_utf8 _).bind fun _ => .pure _

theorem declaration_yields {field : FieldRef} {member : Member} {before after : Pool}
    {constants : ConstantTable} (sound : before.Sound)
    (done : PoolM.Yields (declaration field) before member after)
    (finished : constants.Extends after.table) : Declares constants field member := by
  obtain ⟨name, named, nameYields, done⟩ := PoolM.yields_bind.mp done
  obtain ⟨type, _, typeYields, done⟩ := PoolM.yields_bind.mp done
  obtain ⟨rfl, rfl⟩ := PoolM.yields_pure.mp done
  have nameGrown := (PoolM.interning_utf8 _).grows.yields nameYields
  have typeGrown := (PoolM.interning_utf8 _).grows.yields typeYields
  have nameFound := nameYields.utf8 sound
  have typeFound := typeYields.utf8 (nameGrown.sound sound)
  exact ⟨rfl, Stable.utf8 _ (finished.trans typeGrown.kept) nameFound,
    Stable.utf8 _ finished typeFound, rfl⟩

theorem declarations_grows (fields : HookFields) : PoolM.Grows fields.declarations :=
  (PoolM.interning_mapM declaration_interning _).grows

theorem declarations_yields {fields : HookFields} {members : List Member} {before after : Pool}
    {constants : ConstantTable} (sound : before.Sound)
    (done : PoolM.Yields fields.declarations before members after)
    (finished : constants.Extends after.table) :
    ∃ first second, members = [first, second] ∧ Declares constants fields.classField first ∧
      Declares constants fields.methodField second := by
  cases PoolM.yields_mapM.mp done with
  | cons firstYields rest =>
    cases rest with
    | cons secondYields rest =>
      cases rest with
      | nil =>
        have firstGrown := (declaration_interning _).grows.yields firstYields
        have secondGrown := (declaration_interning _).grows.yields secondYields
        exact ⟨_, _, rfl, declaration_yields sound firstYields (finished.trans secondGrown.kept),
          declaration_yields (firstGrown.sound sound) secondYields finished⟩

end HookFields

end ClassWeave
