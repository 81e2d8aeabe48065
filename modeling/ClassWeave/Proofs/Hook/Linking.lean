import ClassWeave.Proofs.Execution.Linking
import ClassWeave.Proofs.Hook.Declaring
import ClassWeave.Proofs.Hook.Fitting
import ClassWeave.Proofs.Hook.Marshaling

/-!
# The setup finds the interface method

Before anything else, a hooked class looks up the interface on the loader that was asked for, and
the method by its name and by the class objects of all its parameters, and keeps both in its fields.
-/

namespace ClassWeave

open FrameM VFrame Linker

theorem Platform.runtimeName_eq (name : BinaryName) : runtimeName name = name.toDotted := by
  simp [runtimeName, BinaryName.toDotted]

/-- The part of the setup that finds the class and makes room for the class objects of the
parameters. -/
def Initializer.lookup (interface : InterfaceMethod) (fields : HookFields) :
    List SymInstruction :=
  [.loadConstant (.string interface.owner.toDotted), .invoke .virtual loadClassMethod,
    .plain (.stack .dup), .field .putStatic fields.classField,
    .loadConstant (.string interface.name.text), loadInt interface.descriptor.parameters.length,
    .onClass .newArray (.object .classObject)]

/-- The setup finds the loader, the class, the class objects of the parameters, and the method. -/
theorem Initializer.setupInstructions_eq (thisClass : BinaryName) (interface : InterfaceMethod)
    (fields : HookFields) (source : LoaderSource) :
    setupInstructions thisClass interface fields source =
      source.instructions thisClass ++ (lookup interface fields ++
        (interface.descriptor.parameters.zipIdx.flatMap (fun (parameter, index) =>
            storeParameter index parameter) ++
          [.invoke .virtual getMethodMethod, .field .putStatic fields.methodField])) := by
  simp only [setupInstructions, lookup, List.append_assoc]

namespace LoaderSource

variable (linker : Linker)

/-- The loader is the one that was asked for: that of the class itself, that of the current thread,
the one of the system, or that of the plugin with the given id. -/
inductive Leads (linker : Linker) (thisClass : BinaryName) :
    LoaderSource → World → Nat → World → Prop where
  | defining {before after : World} {loader : Nat}
      (asked : linker.Answers before .virtual Platform.getClassLoader
        [.reference (some (linker.classObject (.object thisClass)))] loader after) :
      Leads linker thisClass .defining before loader after
  | context {before middle after : World} {thread loader : Nat}
      (current : linker.Answers before .static Platform.currentThread [] thread middle)
      (asked : linker.Answers middle .virtual Platform.getContextClassLoader
        [.reference (some thread)] loader after) :
      Leads linker thisClass .context before loader after
  | system {before after : World} {loader : Nat}
      (asked : linker.Answers before .static Platform.getSystemClassLoader [] loader after) :
      Leads linker thisClass .system before loader after
  | plugin {id : String} {before managed named found after : World}
      {manager pluginId descriptor loader : Nat}
      (manages : linker.Answers before .static Platform.getInstance [] manager managed)
      (names : linker.Answers managed .static Platform.getId
        [.reference (some (linker.text id))] pluginId named)
      (finds : linker.Answers named .virtual Platform.findEnabledPlugin
        [.reference (some manager), .reference (some pluginId)] descriptor found)
      (asked : linker.Answers found (.interface 1) Platform.getPluginClassLoader
        [.reference (some descriptor)] loader after) :
      Leads linker thisClass (.plugin id) before loader after

variable {linker} {thisClass : BinaryName} {source : LoaderSource} {loader : Nat}
  {before after : World} {rest : List (Value Nat)} {locals : UInt16 → Value Nat}

/-- The instructions of a source put its loader on the stack. -/
theorem Leads.run (leads : source.Leads linker thisClass before loader after) :
    linker.run ⟨rest, locals, before⟩ (source.instructions thisClass) =
      some ⟨.reference (some loader) :: rest, locals, after⟩ := by
  cases leads with
  | defining asked =>
    exact (run_step rfl).trans (run_step (step_receiver (by decide) rfl asked))
  | context current asked =>
    refine (run_step (step_static rfl current)).trans ?_
    exact run_step (step_receiver (by decide) rfl asked)
  | system asked => exact run_step (step_static rfl asked)
  | plugin manages names finds asked =>
    refine (run_step (step_static rfl manages)).trans ?_
    refine (run_step rfl).trans ?_
    refine (run_step (step_static rfl names)).trans ?_
    refine (run_step (step_receiver (by decide) rfl finds)).trans ?_
    exact run_step (step_receiver (by decide) rfl asked)

end LoaderSource

namespace Linker

variable {linker : Linker} {world : World} {rest : List (Value Nat)} {locals : UInt16 → Value Nat}

/-- The object at the place is the class object of the type: what its class constant stands for if it
is a reference type, and what the platform keeps in a field of the wrapper if it is a primitive. -/
structure ClassOf (linker : Linker) (world : World) (type : FieldType) (place : Nat) : Prop where
  isClass : world.heap[place]? = some (.other (.object Platform.classes))
  reference {name : RefType} : type = .ref name → linker.classObject name = place
  primitive {base : BaseType} : type = .base base →
    world.statics (Platform.primitiveClass base) = .reference (some place)

theorem step_loadInt {number : Nat} (short : number < 2 ^ 31) :
    linker.step ⟨rest, locals, world⟩ (loadInt number) =
      some ⟨.int (Int32.ofNat number) :: rest, locals, world⟩ := by
  rcases HookCall.loadInt_cases short with ⟨_, same, value⟩ | ⟨_, same, value⟩ |
    ⟨_, same, value⟩ | same <;> rw [same]
  iterate 3
    rw [← value]
    rfl
  rfl

theorem step_classObject {type : FieldType} {place : Nat} {objects : List LinkObject}
    (classOf : linker.ClassOf world type place) :
    linker.step ⟨rest, locals, ⟨objects, world.statics⟩⟩ (ValueMarshal.of type).classObject =
      some ⟨.reference (some place) :: rest, locals, ⟨objects, world.statics⟩⟩ := by
  cases type with
  | ref name =>
    rw [← classOf.reference rfl]
    rfl
  | base base =>
    rw [← classOf.primitive rfl]
    rfl

/-- An array of class objects. -/
def classes (elements : List (Option Nat)) : LinkObject :=
  .array (.object Platform.classes) elements

/-- The class object of a parameter goes into the array, at the index of the parameter. -/
theorem run_storeParameter {type : FieldType} {place index : Nat} {elements : List (Option Nat)}
    (classOf : linker.ClassOf world type place) (short : index < 2 ^ 31)
    (inside : index < elements.length) :
    linker.run ⟨.reference (some world.heap.length) :: rest, locals, world.add (classes elements)⟩
        (Initializer.storeParameter index type) =
      some ⟨.reference (some world.heap.length) :: rest, locals,
        world.add (classes (elements.set index (some place)))⟩ := by
  have before := (List.getElem?_eq_some_iff.mp classOf.isClass).1
  have isArray : (world.add (classes elements)).heap[world.heap.length]? =
      some (.array (.object Platform.classes) elements) := by
    simp [World.add, classes]
  have fits : linker.fits (world.add (classes elements)) (.object Platform.classes) (some place) =
      true := by
    rw [fits, World.add, List.getElem?_append_left before, classOf.isClass]
    simp [LinkObject.type]
  refine (run_step rfl).trans ((run_step (step_loadInt short)).trans ?_)
  refine (run_step (step_classObject classOf)).trans ?_
  refine (run_step (step_arrayStore isArray (HookCall.nonneg_ofNat short) ?_ fits)).trans ?_
  · rwa [HookCall.toNat_ofNat short]
  · rw [HookCall.toNat_ofNat short]
    simp [World.add, classes, run]

/-- The class objects of all parameters go into the array, one after the other. -/
theorem run_storeParameters {parameters : List FieldType} {places : List Nat}
    (classOf : List.Forall₂ (linker.ClassOf world) parameters places)
    (stored : List (Option Nat)) (short : stored.length + parameters.length < 2 ^ 31) :
    linker.run ⟨.reference (some world.heap.length) :: rest, locals,
        world.add (classes (stored ++ List.replicate parameters.length none))⟩
        ((parameters.zipIdx stored.length).flatMap fun (parameter, index) =>
          Initializer.storeParameter index parameter) =
      some ⟨.reference (some world.heap.length) :: rest, locals,
        world.add (classes (stored ++ places.map some))⟩ := by
  induction classOf generalizing stored with
  | nil => rfl
  | @cons type place parameters places first _ ih =>
    rw [List.length_cons] at short
    have next : (stored ++ List.replicate (parameters.length + 1) none).set stored.length
        (some place) = (stored ++ [some place]) ++ List.replicate parameters.length none := by
      simp [List.replicate_succ]
    have room : stored.length <
        (stored ++ List.replicate (parameters.length + 1) (none : Option Nat)).length := by simp
    have later := ih (stored ++ [some place]) (by simp; omega)
    rw [List.length_append, List.length_singleton] at later
    rw [List.zipIdx_cons, List.flatMap_cons, List.length_cons,
      run_on (run_storeParameter first (by omega) room), next, later]
    simp

end Linker

section Typing

variable {thisClass : BinaryName} {position : Nat} {locals stack : List VType} {type : VType}
  {method : MethodContext} {marks : Label → Option VFrame} {base : Nat}

theorem VFrame.execute_putStatic {field : FieldRef} (takes : Takes field.type type) :
    execute ⟨locals, type :: stack⟩ thisClass position (.field .putStatic field) =
      .ok ⟨locals, stack⟩ :=
  execute_of_run (takes locals stack)

theorem VFrame.execute_classObject (parameter : FieldType) :
    execute ⟨locals, stack⟩ thisClass position (ValueMarshal.of parameter).classObject =
      .ok ⟨locals, VType.ofClass .classObject :: stack⟩ := by
  cases parameter <;> rfl

/-- The instructions of a source leave a class loader on any stack. -/
theorem LoaderSource.instructions_checks (source : LoaderSource) (thisClass : BinaryName) :
    Checks method marks base ((source.instructions thisClass).map Item.instruction)
      (some ⟨locals, stack⟩) (some ⟨locals, VType.ofClass .classLoader :: stack⟩) := by
  cases source with
  | defining | context => exact .instruction rfl (.instruction rfl .nil)
  | system => exact .instruction rfl .nil
  | plugin id =>
    exact .instruction rfl (.instruction rfl (.instruction rfl (.instruction rfl
      (.instruction rfl .nil))))

/-- An array that holds class objects. -/
def classArray : VType := .object (.arrayOf (.object .classObject))

theorem Initializer.storeParameters_checks (parameters : List FieldType) (start : Nat) :
    Checks method marks base
      (((parameters.zipIdx start).flatMap fun (parameter, index) =>
        storeParameter index parameter).map Item.instruction)
      (some ⟨locals, classArray :: stack⟩) (some ⟨locals, classArray :: stack⟩) := by
  induction parameters generalizing base start with
  | nil => exact .nil
  | cons parameter parameters ih =>
    rw [List.zipIdx_cons, List.flatMap_cons, List.map_append]
    refine Checks.append ?_ (ih (start + 1))
    refine .instruction (execute_dup rfl) (.instruction (HookCall.load_int_execute start) ?_)
    exact .instruction (execute_classObject parameter)
      (.instruction (execute_arrayStore rfl rfl) .nil)

theorem Initializer.lookup_checks {fields : HookFields} (typed : HookCall.FieldsTyped fields)
    (interface : InterfaceMethod) :
    Checks method marks base ((lookup interface fields).map Item.instruction)
      (some ⟨locals, VType.ofClass .classLoader :: stack⟩)
      (some ⟨locals,
        classArray :: VType.ofClass .string :: VType.ofClass .classObject :: stack⟩) := by
  have takes : Takes fields.classField.type (VType.ofClass .classObject) :=
    typed.classField ▸ takes_own (.object .classObject)
  refine .instruction rfl (.instruction rfl (.instruction (execute_dup rfl) ?_))
  refine .instruction (execute_putStatic takes) (.instruction rfl ?_)
  exact .instruction (HookCall.load_int_execute _) (.instruction (execute_newArray _) .nil)

/-- The setup fits any frame, and leaves it as it was. -/
theorem Initializer.setup_checks {fields : HookFields} (typed : HookCall.FieldsTyped fields)
    (thisClass : BinaryName) (interface : InterfaceMethod) (source : LoaderSource)
    (frame : VFrame) :
    Checks method marks base (setup thisClass interface fields source) (some frame)
      (some frame) := by
  obtain ⟨locals, stack⟩ := frame
  have takes : Takes fields.methodField.type (VType.ofClass .reflectMethod) :=
    typed.methodField ▸ takes_own (.object .reflectMethod)
  rw [setup, setupInstructions_eq, List.map_append, List.map_append, List.map_append]
  refine (source.instructions_checks thisClass).append ?_
  refine (lookup_checks typed interface).append ((storeParameters_checks _ 0).append ?_)
  exact .instruction rfl (.instruction (execute_putStatic takes) .nil)

end Typing

/-- The class that the loader gives is kept, and the array for its parameters is new. -/
theorem Initializer.run_lookup {linker : Linker} {interface : InterfaceMethod}
    {fields : HookFields} {led loaded : World} {loader type : Nat} {rest : List (Value Nat)}
    {locals : UInt16 → Value Nat} (typed : HookCall.FieldsTyped fields)
    (few : interface.descriptor.parameters.length < 2 ^ 31)
    (loads : linker.Answers led .virtual Platform.loadClass [.reference (some loader),
      .reference (some (linker.text (Platform.runtimeName interface.owner)))] type loaded) :
    linker.run ⟨.reference (some loader) :: rest, locals, led⟩ (lookup interface fields) =
      some ⟨.reference (some loaded.heap.length) ::
        .reference (some (linker.text interface.name.text)) :: .reference (some type) :: rest,
        locals, (loaded.put fields.classField (.reference (some type))).add
          (classes (List.replicate interface.descriptor.parameters.length none))⟩ := by
  have isClass : (Value.reference (some type)).hasType fields.classField.type = true := by
    rw [typed.classField]
    rfl
  rw [Platform.runtimeName_eq] at loads
  refine (run_step rfl).trans ((run_step (step_receiver (by decide) rfl loads)).trans ?_)
  refine (run_step rfl).trans ((run_step (step_putStatic isClass)).trans ?_)
  refine (run_step rfl).trans ((run_step (step_loadInt few)).trans ?_)
  refine (run_step (step_newArray (HookCall.nonneg_ofNat few) _)).trans ?_
  rw [HookCall.toNat_ofNat few]
  rfl

/-- The setup finds the method of the interface, whatever is on the stack and in the locals, and
leaves both as they were. It keeps the class that the loader gives for the name of the interface,
and what that very class answers when it is asked for the method by its name and by an array with
the class object of each parameter, in order. All of this fits any frame. -/
theorem Initializer.setup_links {thisClass : BinaryName} {interface : InterfaceMethod}
    {fields : HookFields} (named : HookFields.of thisClass interface = .ok fields)
    (few : interface.descriptor.parameters.length < 2 ^ 31) (source : LoaderSource) :
    (∀ (linker : Linker) (before : LinkState) (led loaded found : World)
      (loader type method : Nat) (places : List Nat),
      source.Leads linker thisClass before.world loader led →
      linker.Answers led .virtual Platform.loadClass [.reference (some loader),
        .reference (some (linker.text (Platform.runtimeName interface.owner)))] type loaded →
      List.Forall₂ (linker.ClassOf (loaded.put fields.classField (.reference (some type))))
        interface.descriptor.parameters places →
      linker.Answers ((loaded.put fields.classField (.reference (some type))).add
          (.array (.object Platform.classes) (places.map some))) .virtual Platform.getMethod
        [.reference (some type), .reference (some (linker.text interface.name.text)),
          .reference (some loaded.heap.length)] method found →
      found.statics fields.classField = .reference (some type) →
      ∃ after, linker.run before (setupInstructions thisClass interface fields source) =
          some ⟨before.stack, before.locals, after⟩ ∧
        after = found.put fields.methodField (.reference (some method)) ∧
        after.statics fields.classField = .reference (some type) ∧
        after.statics fields.methodField = .reference (some method)) ∧
    ∀ (method : MethodContext) (marks : Label → Option VFrame) (base : Nat) (frame : VFrame),
      Checks method marks base (setup thisClass interface fields source) (some frame)
        (some frame) := by
  have typed := HookFields.of_typed named
  have apart : fields.classField ≠ fields.methodField := fun same =>
    HookFields.keys_ne named (congrArg FieldRef.key same)
  refine ⟨?_, fun method marks base frame => setup_checks typed thisClass interface source frame⟩
  intro linker before led loaded found loader type method places leads loads classOf finds kept
  obtain ⟨stack, locals, world⟩ := before
  have isMethod : (Value.reference (some method)).hasType fields.methodField.type = true := by
    rw [typed.methodField]
    rfl
  have stored := @run_storeParameters linker
    (loaded.put fields.classField (.reference (some type)))
    (.reference (some (linker.text interface.name.text)) :: .reference (some type) :: stack) locals
    _ _ classOf [] (by simpa using few)
  refine ⟨_, ?_, rfl, ?_, World.put_self _ _ _⟩
  · rw [setupInstructions_eq, run_on leads.run, run_on (run_lookup typed few loads)]
    refine (run_on stored).trans ?_
    refine (run_step (step_receiver (by decide) rfl finds)).trans ?_
    exact run_step (step_putStatic isMethod)
  · rw [World.put_ne apart, kept]

/-- An interface method with parameters of all kinds. -/
def mixing : InterfaceMethod :=
  ⟨gathering.owner, gathering.name,
    ⟨[.base .long, .object .string, .arrayOf (.object .thread)], none⟩⟩

/-- A runtime that knows this method only. The class objects of its parameters are at the first
three places. -/
def mixingLinker : Linker where
  text name := if name = Platform.runtimeName mixing.owner then 6 else 7
  classObject type := if type = .object .string then 1 else 2
  isSubtype _ _ := false
  invoke world _ method values :=
    let answer (place : Nat) : Option (Option (Value Nat) × World) :=
      some (some (.reference (some place)), world)
    match values with
    | [] => if method = Platform.currentThread then answer 3 else none
    | [.reference (some 3)] => if method = Platform.getContextClassLoader then answer 4 else none
    | [.reference (some 4), .reference (some 6)] =>
      if method = Platform.loadClass then answer 5 else none
    | [.reference (some 5), .reference (some 7), .reference (some array)] =>
      if method = Platform.getMethod ∧
          world.heap[array]? =
            some (.array (.object Platform.classes) [some 0, some 1, some 2]) then
        answer 8
      else none
    | _ => none

/-- The class object of a primitive is in the field of its wrapper. -/
def mixingWorld : World where
  heap := [.other (.object Platform.classes), .other (.object Platform.classes),
    .other (.object Platform.classes), .other (.object Platform.thread),
    .other (.object Platform.classLoader), .other (.object Platform.classes),
    .other (.object Platform.string), .other (.object Platform.string),
    .other (.object Platform.method)]
  statics field :=
    if field = Platform.primitiveClass .long then .reference (some 0)
    else .reference none

theorem mixing_links : HookFields.of .thread mixing = .ok gatheringFields ∧
    ∃ after, mixingLinker.run ⟨[.int 7], fun _ => .int 9, mixingWorld⟩
        (Initializer.setupInstructions .thread mixing gatheringFields .context) =
          some ⟨[.int 7], fun _ => .int 9, after⟩ ∧
      after.statics gatheringFields.classField = .reference (some 5) ∧
      after.statics gatheringFields.methodField = .reference (some 8) ∧
      after.heap[9]? = some (.array (.object Platform.classes) [some 0, some 1, some 2]) ∧
      Checks gatheringMethod (fun _ => none) 0
        (Initializer.setup .thread mixing gatheringFields .context) (some gatheringFrame)
        (some gatheringFrame) := by
  have named : HookFields.of .thread mixing = .ok gatheringFields := by decide +kernel
  have dotted : mixingLinker.text (Platform.runtimeName mixing.owner) = 6 := if_pos rfl
  have plain : mixingLinker.text mixing.name.text = 7 := if_neg (by decide +kernel)
  let loaded := mixingWorld.put gatheringFields.classField (.reference (some 5))
  let asked := loaded.add (.array (.object Platform.classes) [some 0, some 1, some 2])
  have classOf : List.Forall₂ (mixingLinker.ClassOf loaded) mixing.descriptor.parameters
      [0, 1, 2] := by
    refine .cons ⟨rfl, nofun, ?_⟩ (.cons ⟨rfl, ?_, nofun⟩ (.cons ⟨rfl, ?_, nofun⟩ .nil))
    all_goals
      rintro _ ⟨⟩
      rfl
  have leads : LoaderSource.context.Leads mixingLinker .thread mixingWorld 4 mixingWorld :=
    .context (show _ = _ from rfl) (show _ = _ from rfl)
  have loads : mixingLinker.Answers mixingWorld .virtual Platform.loadClass
      [.reference (some 4), .reference (some (mixingLinker.text (Platform.runtimeName mixing.owner)))] 5
      mixingWorld := by
    rw [dotted]
    rfl
  have finds : mixingLinker.Answers asked .virtual Platform.getMethod
      [.reference (some 5), .reference (some (mixingLinker.text mixing.name.text)),
        .reference (some 9)] 8 asked := by
    rw [plain]
    rfl
  obtain ⟨runs, checks⟩ := Initializer.setup_links named (by decide) .context
  obtain ⟨after, ran, same, classKept, methodKept⟩ := runs mixingLinker
    ⟨[.int 7], fun _ => .int 9, mixingWorld⟩ mixingWorld mixingWorld asked 4 5 8 [0, 1, 2]
    leads loads classOf finds rfl
  exact ⟨named, after, ran, classKept, methodKept, by rw [same]; rfl, checks _ _ _ _⟩

end ClassWeave
