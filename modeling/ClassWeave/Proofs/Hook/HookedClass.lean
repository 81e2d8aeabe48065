import ClassWeave.Proofs.ClassFile.RoundTrip
import ClassWeave.Proofs.Code.Splitting
import ClassWeave.Proofs.Constant.Known
import ClassWeave.Proofs.Hook.Weaving
import ClassWeave.Proofs.Typing.Order

/-!
# Hooked classes

What hooking a class does to it as a whole: nothing happens to it but the fields that are added, and
the code of the methods that the hooks are for.
-/

namespace ClassWeave

/-- All that weaving does to a class. -/
structure HookedClass (file hooked : ClassFile) (settings : Settings) (fields : HookFields)
    (weaving : Weaving) : Prop where
  name : file.name = .ok weaving.thisClass
  fieldNames : HookFields.of weaving.thisClass weaving.spec.interface = .ok fields
  call : weaving.call = .of fields weaving.spec.interface
  setup : weaving.setup =
    Initializer.setup weaving.thisClass weaving.spec.interface fields settings.loaderSource
  kept : hooked = { file with
    constants := hooked.constants, fields := hooked.fields, methods := hooked.methods }
  constants : hooked.constants.Extends file.constants
  fields : ∃ first second, hooked.fields = file.fields ++ [first, second] ∧
    HookFields.Declares hooked.constants fields.classField first ∧
    HookFields.Declares hooked.constants fields.methodField second
  methods : ∃ woven added, List.Forall₂ (weaving.Woven hooked.constants) file.methods woven ∧
    hooked.methods = woven.map Prod.fst ++ added ∧
    (woven.any Prod.snd = true ∧ added = [] ∨
      woven.any Prod.snd = false ∧ ∃ method, added = [method] ∧
        weaving.IsNewInitializer hooked.constants settings.initializerFlags method)

namespace ClassFile

variable {file hooked : ClassFile} {spec : HookSpec} {settings : Settings} {hierarchy : Hierarchy}

/-- The pools that weaving leaves behind, and what it puts into the class. -/
theorem withHooks_yields (done : file.withHooks spec settings hierarchy = .ok hooked) :
    ∃ (fields : HookFields) (weaving : Weaving) (methods declarations : List Member)
      (middle after : Pool), weaving.spec = spec ∧ file.name = .ok weaving.thisClass ∧
      HookFields.of weaving.thisClass weaving.spec.interface = .ok fields ∧
      weaving.call = .of fields weaving.spec.interface ∧
      weaving.setup =
        Initializer.setup weaving.thisClass weaving.spec.interface fields settings.loaderSource ∧
      WeaveM.Yields (weaving.methods settings.initializerFlags file.methods)
        (.ofTable file.constants) methods middle ∧
      PoolM.Yields fields.declarations middle declarations after ∧
      hooked = { file with
        constants := after.table, methods, fields := file.fields ++ declarations } := by
  obtain ⟨thisClass, named, done⟩ := Outcome.bind_ok.mp done
  rw [Outcome.mapError_ok] at named
  split at done
  · cases done
  obtain ⟨fields, fieldsFound, done⟩ := Outcome.bind_ok.mp done
  rw [Outcome.mapError_ok] at fieldsFound
  obtain ⟨superclass, -, done⟩ := Outcome.bind_ok.mp done
  extract_lets weaving weave at done
  split at done
  · cases done
  rename_i methods declarations pool weaves
  cases done
  have yields : WeaveM.Yields weave (.ofTable file.constants) (methods, declarations) pool := weaves
  obtain ⟨_, middle, methodsYield, yields⟩ := WeaveM.yields_bind.mp yields
  obtain ⟨_, _, declarationsYield, yields⟩ := WeaveM.yields_bind.mp yields
  cases WeaveM.yields_pure.mp yields |>.1
  cases WeaveM.yields_pure.mp yields |>.2
  exact ⟨fields, weaving, methods, declarations, middle, pool, rfl, named, fieldsFound, rfl, rfl,
    methodsYield, WeaveM.yields_lift.mp declarationsYield, rfl⟩

theorem withHooks_hookedClass (bound : file.constants.size ≤ Pool.maxSlots)
    (done : file.withHooks spec settings hierarchy = .ok hooked) :
    ∃ fields weaving, weaving.spec = spec ∧ HookedClass file hooked settings fields weaving := by
  obtain ⟨fields, weaving, methods, declarations, middle, after, rfl, named, fieldsFound, call, setup,
    methodsYield, declared, rfl⟩ := withHooks_yields done
  have methodsGrown := WeaveM.Grows.yields (Weaving.methods_grows _ _) methodsYield
  have declarationsGrown := (HookFields.declarations_grows fields).yields declared
  have sound := Pool.ofTable_sound bound
  obtain ⟨first, second, rfl, firstDeclared, secondDeclared⟩ :=
    HookFields.declarations_yields (methodsGrown.sound sound) declared (.refl _)
  exact ⟨fields, weaving, rfl, named, fieldsFound, call, setup, rfl,
    (methodsGrown.trans declarationsGrown).kept, ⟨first, second, rfl, firstDeclared, secondDeclared⟩,
    Weaving.methods_yields sound methodsYield declarationsGrown.kept⟩

/-- Constants are added in the order of their slots, as long as these can be counted. -/
theorem withHooks_constants (bound : file.constants.size ≤ Pool.maxSlots)
    (done : file.withHooks spec settings hierarchy = .ok hooked) :
    (file.constants.Aligned → hooked.constants.Aligned) ∧ hooked.constants.size ≤ Pool.maxSlots := by
  obtain ⟨fields, weaving, methods, declarations, middle, after, -, -, -, -, -, methodsYield, declared,
    rfl⟩ := withHooks_yields done
  have methodsGrown := WeaveM.Grows.yields (Weaving.methods_grows _ _) methodsYield
  have grown := methodsGrown.trans ((HookFields.declarations_grows fields).yields declared)
  exact ⟨grown.aligned, (grown.sound (Pool.ofTable_sound bound)).size⟩

/-- The slots of a class file that was read can be counted in 16 bits. -/
theorem parse_size {bytes : Bytes} (parsed : ClassFile.parse bytes = .ok file) :
    file.constants.size ≤ Pool.maxSlots := (parse_fits parsed).1.slots

end ClassFile

/-- Is the code of a method changed? That of a target is if the trigger occurs in it, and that of a
static initializer if it is not a target. -/
def HookSpec.Edits (spec : HookSpec) (call : HookCall) (name : String)
    (descriptor : MethodDescriptor) (body : Body) : Prop :=
  match spec.target? name descriptor with
  | some target => (HookPlan.hooked? ⟨call, target⟩ body).isSome
  | none => name = UnqualifiedName.clinit.text

/-- What an edit makes of the body of a method. A hook goes into it, or a setup before it. -/
def HookSpec.EditsTo (spec : HookSpec) (call : HookCall) (name : String)
    (descriptor : MethodDescriptor) (body edited : Body) : Prop :=
  match spec.target? name descriptor with
  | some target => HookPlan.hooked? ⟨call, target⟩ body = some edited
  | none => name = UnqualifiedName.clinit.text ∧ ∃ setup, edited = Initializer.prepend setup body

/-- What hooking a class leaves of a method: all but the code, and the code too unless it is to be
changed. Code that is to be changed is replaced by that of the edited body. The constants are those
of the hooked class. -/
structure Member.KeepsAllButCode (spec : HookSpec) (call : HookCall) (constants : ConstantTable)
    (method hooked : Member) : Prop where
  flags : hooked.flags = method.flags
  nameIndex : hooked.nameIndex = method.nameIndex
  descriptorIndex : hooked.descriptorIndex = method.descriptorIndex
  attributes : hooked.attributes = method.attributes ∨
    ∃ name descriptor position body attr, method.Named constants name descriptor ∧
      method.HasBody constants position body ∧ spec.Edits call name descriptor body ∧
      attr.name constants = .ok AttributeKind.code.name ∧
      hooked.attributes = method.attributes.set position attr
  unedited {name : String} {descriptor : MethodDescriptor} {position : Nat} {body : Body} :
    method.Named constants name descriptor → method.HasBody constants position body →
      ¬ spec.Edits call name descriptor body → hooked.attributes = method.attributes
  edited {name : String} {descriptor : MethodDescriptor} {position : Nat} {body : Body} :
    method.Named constants name descriptor → method.HasBody constants position body →
      spec.Edits call name descriptor body → ∃ edited code attr,
        spec.EditsTo call name descriptor body edited ∧ attr.HoldsBody constants edited code ∧
          hooked.attributes = method.attributes.set position attr

namespace Weaving

variable {weaving : Weaving} {name : String} {descriptor : MethodDescriptor}

theorem editFor_keep : weaving.editFor name descriptor = .keep ↔
    weaving.spec.target? name descriptor = none ∧ name ≠ UnqualifiedName.clinit.text := by
  unfold editFor
  split <;> simp_all

theorem editFor_hook {target : Target} : weaving.editFor name descriptor = .hook target ↔
    weaving.spec.target? name descriptor = some target := by
  unfold editFor
  split
  · simp_all
  · split <;> simp_all

theorem editFor_setUp : weaving.editFor name descriptor = .setUp ↔
    weaving.spec.target? name descriptor = none ∧ name = UnqualifiedName.clinit.text := by
  unfold editFor
  split <;> simp_all

theorem edits_of_hook {target : Target} {body hooked : Body}
    (edit : weaving.editFor name descriptor = .hook target)
    (triggered : HookPlan.hooked? ⟨weaving.call, target⟩ body = some hooked) :
    weaving.spec.Edits weaving.call name descriptor body := by
  unfold HookSpec.Edits
  rw [editFor_hook.mp edit]
  simp only [triggered, Option.isSome_some]

theorem edits_of_setUp (edit : weaving.editFor name descriptor = .setUp) (body : Body) :
    weaving.spec.Edits weaving.call name descriptor body := by
  obtain ⟨notTarget, named⟩ := editFor_setUp.mp edit
  unfold HookSpec.Edits
  rw [notTarget]
  exact named

theorem editsTo_of_hook {target : Target} {body hooked : Body}
    (edit : weaving.editFor name descriptor = .hook target)
    (triggered : HookPlan.hooked? ⟨weaving.call, target⟩ body = some hooked) :
    weaving.spec.EditsTo weaving.call name descriptor body hooked := by
  unfold HookSpec.EditsTo
  rw [editFor_hook.mp edit]
  exact triggered

theorem editsTo_of_setUp (edit : weaving.editFor name descriptor = .setUp) (body : Body) :
    weaving.spec.EditsTo weaving.call name descriptor body
      (Initializer.prepend weaving.setup body) := by
  obtain ⟨notTarget, named⟩ := editFor_setUp.mp edit
  unfold HookSpec.EditsTo
  rw [notTarget]
  exact ⟨named, _, rfl⟩

theorem keepsAllButCode_set {spec : HookSpec} {call : HookCall} {constants : ConstantTable}
    {method : Member} {position : Nat} {body edited : Body} {attr : Attribute}
    (named : method.Named constants name descriptor)
    (hasBody : method.HasBody constants position body)
    (edits : spec.Edits call name descriptor body)
    (editsTo : spec.EditsTo call name descriptor body edited)
    (holds : ∃ code, attr.HoldsBody constants edited code) :
    method.KeepsAllButCode spec call constants
      { method with attributes := method.attributes.set position attr } := by
  obtain ⟨code, holds⟩ := holds
  refine ⟨rfl, rfl, rfl, .inr ⟨name, descriptor, position, body, attr, named, hasBody, edits,
    holds.named, rfl⟩, fun named' hasBody' unedited => ?_, fun named' hasBody' _ => ?_⟩
  all_goals
    obtain ⟨rfl, rfl⟩ := named.unique named'
    obtain ⟨rfl, rfl⟩ := hasBody.unique hasBody'
  · exact absurd edits unedited
  · exact ⟨edited, code, attr, editsTo, holds, rfl⟩

/-- A method that nothing is done to is kept, as long as nothing was to be done to it. -/
theorem keepsAllButCode_self {spec : HookSpec} {call : HookCall} {constants : ConstantTable}
    {method : Member}
    (unedited : ∀ name descriptor position body, method.Named constants name descriptor →
      method.HasBody constants position body → ¬ spec.Edits call name descriptor body) :
    method.KeepsAllButCode spec call constants method :=
  ⟨rfl, rfl, rfl, .inl rfl, fun _ _ _ => rfl, fun named hasBody edits =>
    absurd edits (unedited _ _ _ _ named hasBody)⟩

theorem Woven.keepsAllButCode {constants : ConstantTable} {method : Member} {woven : Member × Bool}
    (weaves : weaving.Woven constants method woven) :
    method.KeepsAllButCode weaving.spec weaving.call constants woven.1 := by
  cases weaves with
  | kept named edit =>
    refine keepsAllButCode_self fun name descriptor position body named' _ edits => ?_
    obtain ⟨rfl, rfl⟩ := named.unique named'
    obtain ⟨notTarget, notInitializer⟩ := editFor_keep.mp edit
    unfold HookSpec.Edits at edits
    rw [notTarget] at edits
    exact notInitializer edits
  | codeless _ codeless =>
    refine keepsAllButCode_self fun name descriptor position body _ hasBody => ?_
    cases codeless.symm.trans hasBody.coded
  | untriggered named edit hasBody untriggered =>
    refine keepsAllButCode_self fun name descriptor position body named' hasBody' edits => ?_
    obtain ⟨rfl, rfl⟩ := named.unique named'
    obtain ⟨rfl, rfl⟩ := hasBody.unique hasBody'
    unfold HookSpec.Edits at edits
    rw [editFor_hook.mp edit] at edits
    simp only [untriggered, Option.isSome_none, Bool.false_eq_true] at edits
  | hooked named edit hasBody triggered assembled =>
    exact keepsAllButCode_set named hasBody (edits_of_hook edit triggered)
      (editsTo_of_hook edit triggered) assembled.holdsBody
  | setUp named edit hasBody assembled =>
    exact keepsAllButCode_set named hasBody (edits_of_setUp edit _) (editsTo_of_setUp edit _)
      assembled.holdsBody

end Weaving

/-- A hooked class has more constants, two more fields, and perhaps an initializer that it had not.
The code of methods may differ too, and nothing else does. -/
structure ClassFile.DiffersByHooks (file hooked : ClassFile) (spec : HookSpec)
    (names : HookFields) : Prop where
  version : hooked.version = file.version
  flags : hooked.flags = file.flags
  thisClass : hooked.thisClass = file.thisClass
  superClass : hooked.superClass = file.superClass
  interfaces : hooked.interfaces = file.interfaces
  attributes : hooked.attributes = file.attributes
  constants : ∀ slot < file.constants.size,
    hooked.constants.slots[slot]? = file.constants.slots[slot]?
  fieldNames : ∃ thisClass, file.name = .ok thisClass ∧
    HookFields.of thisClass spec.interface = .ok names
  fields : ∃ first second, hooked.fields = file.fields ++ [first, second] ∧
    HookFields.Declares hooked.constants names.classField first ∧
    HookFields.Declares hooked.constants names.methodField second
  methods : ∃ methods added, hooked.methods = methods ++ added ∧ added.length ≤ 1 ∧
    List.Forall₂ (Member.KeepsAllButCode spec (.of names spec.interface) hooked.constants)
      file.methods methods

/-- Hooking a class changes nothing but what it must. -/
theorem ClassFile.withHooks_frame {bytes : Bytes} {file hooked : ClassFile} {spec : HookSpec}
    {settings : Settings} {hierarchy : Hierarchy} (parsed : ClassFile.parse bytes = .ok file)
    (done : file.withHooks spec settings hierarchy = .ok hooked) :
    ∃ names, file.DiffersByHooks hooked spec names := by
  obtain ⟨fields, weaving, rfl, hookedClass⟩ :=
    ClassFile.withHooks_hookedClass (ClassFile.parse_size parsed) done
  obtain ⟨woven, added, weaves, methods, initializer⟩ := hookedClass.methods
  have atMostOne : added.length ≤ 1 := by
    rcases initializer with ⟨-, rfl⟩ | ⟨-, method, rfl, -⟩
    · exact Nat.zero_le 1
    · exact Nat.le_refl 1
  have each : List.Forall₂ (Member.KeepsAllButCode weaving.spec
      (.of fields weaving.spec.interface) hooked.constants) file.methods (woven.map Prod.fst) := by
    rw [List.forall₂_map_right_iff, ← hookedClass.call]
    exact weaves.imp fun _ _ => Weaving.Woven.keepsAllButCode
  have kept := hookedClass.kept
  refine ⟨fields, ?_, ?_, ?_, ?_, ?_, ?_, fun slot inside => hookedClass.constants.slot inside,
    ⟨weaving.thisClass, hookedClass.name, hookedClass.fieldNames⟩, hookedClass.fields,
    woven.map Prod.fst, added, methods, atMostOne, each⟩ <;> rw [kept]

/-- A class whose static initializer does nothing yet. All constants of the setup are there. -/
def greeter : ClassFile where
  version := ⟨49, 0⟩
  constants := .ofList [.utf8 "app/Greeter", .classRef 1, .utf8 "java/lang/Object", .classRef 3,
    .utf8 "Code", .utf8 "<clinit>", .utf8 "()V", .utf8 "java/lang/ClassLoader", .classRef 8,
    .utf8 "getSystemClassLoader", .utf8 "()Ljava/lang/ClassLoader;", .nameAndType 10 11,
    .methodRef 9 12 false, .utf8 "Hook", .string 14, .utf8 "loadClass",
    .utf8 "(Ljava/lang/String;)Ljava/lang/Class;", .nameAndType 16 17, .methodRef 9 18 false,
    .utf8 "CHOOK", .utf8 "Ljava/lang/Class;", .nameAndType 20 21, .fieldRef 2 22, .utf8 "run",
    .string 24, .utf8 "java/lang/Class", .classRef 26, .utf8 "getMethod",
    .utf8 "(Ljava/lang/String;[Ljava/lang/Class;)Ljava/lang/reflect/Method;", .nameAndType 28 29,
    .methodRef 27 30 false, .utf8 "CHOOK_RUN", .utf8 "Ljava/lang/reflect/Method;",
    .nameAndType 32 33, .fieldRef 2 34, .utf8 "greet"]
  flags := 0x21
  thisClass := 2
  superClass := some 4
  interfaces := []
  fields := []
  methods := [⟨9, 36, 7, [⟨5, [0, 0, 0, 0, 0, 0, 0, 1, 0xB1, 0, 0, 0, 0]⟩]⟩,
    ⟨8, 6, 7, [⟨5, [0, 0, 0, 0, 0, 0, 0, 1, 0xB1, 0, 0, 0, 0]⟩]⟩]
  attributes := []

def greeterWith (fields : List Member) : ClassFile := { greeter with fields }

def greeterName : BinaryName := ⟨"app/Greeter", by decide⟩

def greeterTarget : Target where
  name := ⟨"greet", by decide⟩
  descriptor := ⟨[], none⟩
  shape := .callBranch ⟨greeterName, ⟨"wait", by decide⟩, ⟨[], none⟩⟩
  argumentSlots := []

theorem run_isName : segmentError? "run".toList = none := by decide

/-- The trigger does not occur in the target. -/
def greeterSpec : HookSpec where
  interface := ⟨⟨"Hook", by decide⟩, ⟨"run", run_isName⟩, ⟨[], none⟩⟩
  targets := [greeterTarget]

def greeterSettings : Settings := { Settings.default with loaderSource := .system }

def greeterFields : HookFields where
  classField := ⟨greeterName, ⟨"CHOOK", by decide⟩, .object .classObject⟩
  methodField := ⟨greeterName, ⟨"CHOOK_RUN", by decide⟩, .object .reflectMethod⟩

def greeterSetup : List Item :=
  Initializer.setup greeterName greeterSpec.interface greeterFields .system

def greeterBody : Body := { Body.empty with items := [.branch (.ret .void)] }

def greeterPrepared : Body := Initializer.prepend greeterSetup greeterBody

def greeterContext : AssemblyContext where
  method := ⟨greeterName, .clinit, ⟨[], none⟩, true⟩
  hierarchy := EditedClass.hierarchy ⟨greeterName, some .object⟩ .flat
  emitStackMap := false

def greeterTyping : Typing where
  frames :=
    let loader := VType.ofClass .classLoader
    let text := VType.ofClass .string
    let class_ := VType.ofClass .classObject
    let classes : VType := .object (.array 0 (.object .classObject))
    #[some ⟨[], []⟩, some ⟨[], [loader]⟩, some ⟨[], [text, loader]⟩, some ⟨[], [class_]⟩,
      some ⟨[], [class_, class_]⟩, some ⟨[], [class_]⟩, some ⟨[], [text, class_]⟩,
      some ⟨[], [.integer, text, class_]⟩, some ⟨[], [classes, text, class_]⟩,
      some ⟨[], [VType.ofClass .reflectMethod]⟩, some ⟨[], []⟩]
  maxStack := 3
  maxLocals := 0

def greeterCode : CodeAttribute where
  maxStack := 3
  maxLocals := 0
  code := [184, 0, 13, 18, 15, 182, 0, 19, 89, 179, 0, 23, 18, 25, 3, 189, 0, 27, 182, 0, 31, 179, 0,
    35, 177]
  exceptions := []
  attributes := []

section

open Assembly

private def greeterParts : List Part :=
  let lowered : List PoolInstruction := [.invoke .static 13, .loadConstant 15, .invoke .virtual 19,
    .plain (.stack .dup), .field .putStatic 23, .loadConstant 25, .plain (.push .int0),
    .onClass .newArray 27, .invoke .virtual 31, .field .putStatic 35]
  (greeterSetup.zip lowered).map (fun (item, found) => ⟨item, true, some found⟩)
    ++ [⟨.branch (.ret .void), true, none⟩]

private def greeterLayout : Layout :=
  let widened := List.replicate 11 false
  ⟨.ofPieces (greeterParts.map Part.piece) widened, widened.toArray⟩

private abbrev greeterPlaced : List Placed := place greeterLayout greeterParts

/-- Nothing is asked of the hierarchy, as nothing is merged. -/
private theorem greeter_typed (hierarchy : Hierarchy) : greeterPrepared.inferFrames
    greeterContext.method hierarchy = .ok greeterTyping := by
  cbv

private theorem greeter_known : (greeterPrepared.items.zipIdx.mapM fun entry =>
    knownPart? greeter.constants greeterTyping entry.1 entry.2) = some greeterParts := by
  cbv

private theorem greeter_laid : Layout.ofPieces greeterTyping.isReachable
    (greeterParts.map Part.piece) = .ok greeterLayout := by
  cbv

private theorem greeter_length : ¬ 65535 < greeterLayout.length := by cbv

private theorem greeter_dead : deadSpans greeterPlaced = [] := by cbv

private theorem greeter_jumps : jumpOffsets greeterLayout greeterPlaced = .ok [] := by cbv

private theorem greeter_bytes :
    codeBytes greeterLayout (deadSpans greeterPlaced) greeterPlaced = .ok greeterCode.code := by
  cbv

private theorem greeter_lines : lineEntries greeterLayout greeterPlaced = [] := by cbv

open PoolM.Finds in
theorem greeter_assembled (hierarchy : Hierarchy) : PoolM.Finds greeter.constants
    (greeterPrepared.assemble { greeterContext with hierarchy }) greeterCode := by
  have empty {α : Type} : PoolM.Finds greeter.constants (Pure.pure []) ([] : List α) := .pure []
  refine (lift (greeter_typed hierarchy)).bind ((parts_find greeter_known).bind ((lift greeter_laid).bind ?_))
  rw [if_neg greeter_length]
  refine (lift greeter_jumps).bind (empty.bind ((lift greeter_bytes).bind ?_))
  rw [greeter_lines]
  refine empty.bind (empty.bind (empty.bind (empty.bind ?_)))
  rw [greeter_dead]
  exact empty.bind (.pure _)

end

def greeterHooked : ClassFile :=
  { greeter with
    fields := [⟨0x1A, 20, 21, []⟩, ⟨0x1A, 32, 33, []⟩]
    methods := [⟨9, 36, 7, [⟨5, [0, 0, 0, 0, 0, 0, 0, 1, 0xB1, 0, 0, 0, 0]⟩]⟩,
      ⟨8, 6, 7, [⟨5, greeterCode.encode⟩]⟩] }

def greeterWeaving : Weaving where
  thisClass := greeterName
  spec := greeterSpec
  call := .of greeterFields greeterSpec.interface
  setup := greeterSetup
  hierarchy := greeterContext.hierarchy
  emitStackMaps := false

open Disassembly in
private theorem idle_body :
    Body.ofCode ⟨0, 0, [0xB1], [], []⟩ greeter.constants = .ok greeterBody := by
  have split : Bytecode.split [0xB1] = .ok [(0, .branch (.ret .void))] :=
    Bytecode.split_written (.single (.branch rfl)) (by decide)
      (by simp [Bytecode.KeysFit, Branch.KeysFit]) (by decide)
  have noLabels : labelOffsets [] = [] := by cbv
  refine Outcome.bind_ok.mpr ⟨_, split, Outcome.bind_ok.mpr ⟨[], rfl, ?_⟩⟩
  refine Outcome.bind_ok.mpr ⟨[], rfl, Outcome.bind_ok.mpr ⟨⟨[], []⟩, rfl, ?_⟩⟩
  simp [noLabels, itemsOf, itemOf, marksAt, linesByOffset, Branch.mapM, greeterBody, Body.empty,
    bind, Except.bind, Functor.map, Except.map, pure, Except.pure]

def idleCode : Attribute := ⟨5, [0, 0, 0, 0, 0, 0, 0, 1, 0xB1, 0, 0, 0, 0]⟩

theorem idle_hasBody {method : Member} (idle : method.attributes = [idleCode]) :
    method.HasBody greeter.constants 0 greeterBody := by
  have named : idleCode.name greeter.constants = .ok AttributeKind.code.name := by decide +kernel
  refine ⟨?_, idleCode, _, by rw [idle]; rfl, by decide +kernel, idle_body⟩
  rw [Member.codePosition?, idle]
  exact Outcome.bind_ok.mpr ⟨_, named, rfl⟩

theorem idle_named {method : Member} {name : String} (type : method.descriptorIndex = 7)
    (named : greeter.constants.utf8 method.nameIndex = .ok name) :
    method.Named greeter.constants name ⟨[], none⟩ := by
  have text : greeter.constants.utf8 7 = .ok "()V" := by decide +kernel
  exact ⟨named, Outcome.bind_ok.mpr ⟨"()V", type ▸ text, by cbv⟩⟩

def greeterPool : Pool := .ofTable greeter.constants

section

variable (hierarchy : Hierarchy)

private theorem greet_woven : WeaveM.Yields
    (Weaving.weaveMethod { greeterWeaving with hierarchy } ⟨9, 36, 7, [idleCode]⟩) greeterPool
    (⟨9, 36, 7, [idleCode]⟩, false) greeterPool := by
  have text : greeter.constants.utf8 36 = .ok "greet" := by decide +kernel
  have edit : Weaving.editFor { greeterWeaving with hierarchy } "greet" ⟨[], none⟩
      = .hook greeterTarget := by
    change greeterWeaving.editFor "greet" ⟨[], none⟩ = _
    decide +kernel
  have untriggered : Weaving.editedBody { greeterWeaving with hierarchy } (.hook greeterTarget)
      greeterBody = .ok none := by cbv
  exact Weaving.weaveMethod_unchanged (idle_named rfl text) edit (by rintro ⟨⟩)
    (idle_hasBody rfl) untriggered

private theorem clinit_woven : WeaveM.Yields
    (Weaving.weaveMethod { greeterWeaving with hierarchy } ⟨8, 6, 7, [idleCode]⟩) greeterPool
    (⟨8, 6, 7, [⟨5, greeterCode.encode⟩]⟩, true) greeterPool := by
  have text : greeter.constants.utf8 6 = .ok "<clinit>" := by decide +kernel
  have edit : Weaving.editFor { greeterWeaving with hierarchy } "<clinit>" ⟨[], none⟩ = .setUp := by
    change greeterWeaving.editFor "<clinit>" ⟨[], none⟩ = _
    decide +kernel
  have code : PoolM.Finds greeter.constants (PoolM.attributeOf .code greeterCode.encode)
      ⟨5, greeterCode.encode⟩ :=
    (PoolM.Finds.intern (by decide +kernel)).bind (.pure _)
  have named : (⟨8, 6, 7, [idleCode]⟩ : Member).Named greeterPool.table "<clinit>" ⟨[], none⟩ :=
    idle_named rfl text
  have changed : Weaving.editedBody { greeterWeaving with hierarchy } .setUp greeterBody
    = .ok (some (.clinit, greeterPrepared)) := rfl
  have woven := Weaving.weaveMethod_changed named edit nofun (idle_hasBody rfl) changed
    (greeter_assembled hierarchy) code
  exact woven

private theorem greeter_woven : WeaveM.Yields
    (Weaving.methods { greeterWeaving with hierarchy } greeterSettings.initializerFlags
      greeter.methods) greeterPool greeterHooked.methods greeterPool := by
  refine WeaveM.yields_bind.mpr ⟨[(_, false), (_, true)], greeterPool, ?_, rfl⟩
  simp only [greeter, List.mapM_cons, List.mapM_nil]
  refine WeaveM.yields_bind.mpr ⟨_, _, greet_woven hierarchy, ?_⟩
  refine WeaveM.yields_bind.mpr ⟨_, _, ?_, WeaveM.yields_pure.mpr ⟨rfl, rfl⟩⟩
  exact WeaveM.yields_bind.mpr ⟨_, _, clinit_woven hierarchy, rfl⟩

end

private theorem declaration_finds {table : ConstantTable} {field : FieldRef}
    {name type : ConstantIndex} (nameKnown : table.slotOf? (.utf8 field.name.text) = some name)
    (typeKnown : table.slotOf? (.utf8 field.type.render) = some type) :
    PoolM.Finds table (HookFields.declaration field)
      ⟨Access.isPrivate ||| Access.isStatic ||| Access.isFinal, name, type, []⟩ :=
  (PoolM.Finds.intern nameKnown).bind ((PoolM.Finds.intern typeKnown).bind (.pure _))

private theorem greeter_declared :
    PoolM.Finds greeter.constants greeterFields.declarations greeterHooked.fields := by
  have first : PoolM.Finds greeter.constants (HookFields.declaration greeterFields.classField)
      ⟨0x1A, 20, 21, []⟩ := declaration_finds (by decide +kernel) (by decide +kernel)
  have second : PoolM.Finds greeter.constants (HookFields.declaration greeterFields.methodField)
      ⟨0x1A, 32, 33, []⟩ := declaration_finds (by decide +kernel) (by decide +kernel)
  simp only [HookFields.declarations, List.mapM_cons, List.mapM_nil]
  refine first.bind (PoolM.Finds.bind (second.bind ?_) (.pure _))
  exact (PoolM.Finds.pure []).bind (.pure _)

set_option maxRecDepth 10000 in
theorem greeter_parsed : ClassFile.parse greeter.encode = .ok greeter := by cbv

/-- Only what becomes of the methods depends on the targets and the hierarchy. The fields are kept. -/
theorem greeter_withHooks {targets : List Target} {hierarchy : Hierarchy}
    {fields methods : List Member}
    (woven : WeaveM.Yields
      (Weaving.methods { greeterWeaving with
          spec := ⟨greeterSpec.interface, targets⟩
          hierarchy := EditedClass.hierarchy ⟨greeterName, some .object⟩ hierarchy }
        greeterSettings.initializerFlags greeter.methods) greeterPool methods greeterPool) :
    (greeterWith fields).withHooks ⟨greeterSpec.interface, targets⟩ greeterSettings hierarchy
      = .ok { greeterHooked with methods, fields := fields ++ greeterHooked.fields } := by
  have named : greeter.name = .ok greeterName := by decide +kernel
  have superNamed : greeter.superName = .ok (some .object) := by decide +kernel
  have hookFields : HookFields.of greeterName greeterSpec.interface = .ok greeterFields := by
    decide +kernel
  have unlimited : greeter.limit? greeterName greeterSpec.interface
      greeterSettings.loaderSource = none := by decide +kernel
  refine Outcome.bind_ok.mpr ⟨greeterName, Outcome.mapError_ok.mpr named, ?_⟩
  rw [show (greeterWith fields).limit? _ _ _ = none from unlimited]
  refine Outcome.bind_ok.mpr ⟨greeterFields, Outcome.mapError_ok.mpr hookFields, ?_⟩
  refine Outcome.bind_ok.mpr ⟨_, Outcome.mapError_ok.mpr superNamed, ?_⟩
  extract_lets weaving weave
  have wove : WeaveM.Yields weave greeterPool (methods, greeterHooked.fields) greeterPool := by
    refine WeaveM.yields_bind.mpr ⟨_, _, woven, ?_⟩
    refine WeaveM.yields_bind.mpr ⟨_, _, WeaveM.yields_lift.mpr greeter_declared, ?_⟩
    exact WeaveM.yields_pure.mpr ⟨rfl, rfl⟩
  rw [show weave (.ofTable (greeterWith fields).constants) = _ from wove]
  rfl

/-- The class is hooked in the same way whatever fields it has, and whatever the hierarchy is. -/
theorem greeter_hookedWith (fields : List Member) (hierarchy : Hierarchy) :
    (greeterWith fields).withHooks greeterSpec greeterSettings hierarchy = .ok
      { greeterHooked with fields := fields ++ greeterHooked.fields } :=
  greeter_withHooks (greeter_woven _)

theorem greeter_hooked : greeter.withHooks greeterSpec greeterSettings .flat = .ok greeterHooked :=
  greeter_hookedWith [] .flat

/-- The target stays as it is, and the initializer gets new code. -/
theorem greeter_frame : ClassFile.parse greeter.encode = .ok greeter ∧
    greeter.withHooks greeterSpec greeterSettings .flat = .ok greeterHooked ∧
    ∃ names, greeter.DiffersByHooks greeterHooked greeterSpec names :=
  ⟨greeter_parsed, greeter_hooked, ClassFile.withHooks_frame greeter_parsed greeter_hooked⟩

end ClassWeave
