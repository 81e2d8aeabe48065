import Mathlib.Algebra.GroupWithZero.Nat
import ClassWeave.Proofs.Typing.Moving
import ClassWeave.Proofs.Typing.Shifting

/-!
# What items take and leave

Most instructions take operands off the stack and leave results there, and the instructions about the
stack move what it holds. What an item does to a frame is one of the few things that are listed here.
-/

namespace ClassWeave

/-- What an instruction does to the stack if it only takes operands and leaves results. -/
structure Exchange where
  takes : Nat
  /-- The slots that each result needs, the topmost first. -/
  leaves : List Nat

/-- The slots of an array's elements. -/
def ElementKind.width : ElementKind → Nat
  | long | double => 2
  | _ => 1

def Plain.exchange? : Plain → Option Exchange
  | .nop => some ⟨0, []⟩
  | .push constant => some ⟨0, [constant.type.width]⟩
  | .arrayLoad kind => some ⟨2, [kind.width]⟩
  | .arrayStore _ => some ⟨3, []⟩
  | .stack _ => none
  | .arithmetic _ kind => some ⟨2, [kind.type.width]⟩
  | .negate kind => some ⟨1, [kind.type.width]⟩
  | .shift _ kind | .bitwise _ kind => some ⟨2, [kind.type.width]⟩
  | .convert conversion => some ⟨1, [conversion.types.2.width]⟩
  | .compareLongs | .compareFloats _ _ => some ⟨2, [1]⟩
  | .arrayLength => some ⟨1, [1]⟩
  | .monitorEnter | .monitorExit => some ⟨1, []⟩

def FieldOp.exchange (op : FieldOp) (type : FieldType) : Exchange :=
  match op with
  | getStatic => ⟨0, [type.width]⟩
  | putStatic => ⟨1, []⟩
  | getField => ⟨1, [type.width]⟩
  | putField => ⟨2, []⟩

/-- The receiver is taken too, if there is one. -/
def InvokeKind.exchange (kind : InvokeKind) (type : MethodDescriptor) : Exchange :=
  ⟨type.parameters.length + if kind = static then 0 else 1, (type.result.map FieldType.width).toList⟩

/-- The operands and the results, unless the instruction moves values about or makes an object. -/
def Instruction.exchange? : SymInstruction → Option Exchange
  | .plain op => op.exchange?
  | .pushByte _ | .pushShort _ | .loadConstant _ => some ⟨0, [1]⟩
  | .loadWideConstant _ => some ⟨0, [2]⟩
  | .load _ _ | .store _ _ | .increment _ _ => none
  | .field op ref => some (op.exchange ref.type)
  | .invoke kind method => some (kind.exchange method.descriptor)
  | .invokeDynamic site => some (InvokeKind.static.exchange site.descriptor)
  | .newPrimitiveArray _ => some ⟨1, [1]⟩
  | .onClass .new _ => none
  | .onClass _ _ => some ⟨1, [1]⟩
  | .newMultiArray _ dimensions => some ⟨dimensions.toNat, [1]⟩

/-- How many operands a branch takes, if it stays in the method. -/
def Branch.takes {τ : Type} : Branch τ → Nat
  | jumpIf (.zero _) _ | jumpIf (.null _) _ => 1
  | jumpIf (.ints _) _ | jumpIf (.references _) _ => 2
  | goto _ | ret .void => 0
  | tableSwitch _ _ _ | lookupSwitch _ _ | ret _ | athrow => 1

namespace StackOp

/-- The slots of the values on top that are moved. -/
def upper : StackOp → Nat
  | pop | dup | dupX1 | dupX2 | swap => 1
  | pop2 | dup2 | dup2X1 | dup2X2 => 2

/-- The slots of the values below that they are moved past. -/
def lower : StackOp → Nat
  | pop | pop2 | dup | dup2 => 0
  | dupX1 | dup2X1 | swap => 1
  | dupX2 | dup2X2 => 2

variable {α : Type}

/-- What takes the place of the values. -/
def arrange (above below : List α) : StackOp → List α
  | pop | pop2 => []
  | swap => below ++ above
  | _ => above ++ below ++ above

/-- The stack before copying and dropping values, and the one after it: values move as a whole. -/
def Rearranges (width : α → Nat) (op : StackOp) (before after : List α) : Prop :=
  ∃ above below rest, (above.map width).sum = op.upper ∧ (below.map width).sum = op.lower ∧
    before = above ++ below ++ rest ∧ after = op.arrange above below ++ rest

theorem mem_arrange {op : StackOp} {above below : List α} {value : α}
    (member : value ∈ op.arrange above below) : value ∈ above ++ below := by
  cases op <;> simp [arrange] at member ⊢ <;> tauto

/-- Nothing new comes onto the stack. -/
theorem Rearranges.mem {width : α → Nat} {op : StackOp} {before after : List α} {value : α}
    (rearranges : op.Rearranges width before after) (member : value ∈ after) : value ∈ before := by
  obtain ⟨above, below, rest, -, -, rfl, rfl⟩ := rearranges
  rcases List.mem_append.mp member with moved | kept
  · exact List.mem_append_left _ (mem_arrange moved)
  · exact List.mem_append_right _ kept

end StackOp

section Rearranging

variable {α β : Type} {related : α → β → Prop} {first : α → Nat} {second : β → Nat}

/-- Values that take the same slots are as many, and so are those below them. -/
theorem forall₂_slots (firstPositive : ∀ value, 0 < first value)
    (secondPositive : ∀ value, 0 < second value)
    (widths : ∀ {upper lower}, related upper lower → first upper = second lower)
    {above rest : List α} {otherAbove otherRest : List β}
    (slots : (above.map first).sum = (otherAbove.map second).sum)
    (all : List.Forall₂ related (above ++ rest) (otherAbove ++ otherRest)) :
    List.Forall₂ related above otherAbove ∧ List.Forall₂ related rest otherRest := by
  induction above generalizing otherAbove with
  | nil =>
    cases otherAbove with
    | nil => exact ⟨.nil, all⟩
    | cons value _ =>
      have positive := secondPositive value
      simp only [List.map_nil, List.sum_nil, List.map_cons, List.sum_cons] at slots
      omega
  | cons value above ih =>
    cases otherAbove with
    | nil =>
      have positive := firstPositive value
      simp only [List.map_nil, List.sum_nil, List.map_cons, List.sum_cons] at slots
      omega
    | cons other otherAbove =>
      cases all with
      | cons head tail =>
        have width := widths head
        simp only [List.map_cons, List.sum_cons] at slots
        obtain ⟨matched, below⟩ := ih (by omega) tail
        exact ⟨.cons head matched, below⟩

theorem forall₂_arrange (op : StackOp) {above below : List α} {otherAbove otherBelow : List β}
    (upper : List.Forall₂ related above otherAbove)
    (lower : List.Forall₂ related below otherBelow) :
    List.Forall₂ related (op.arrange above below) (op.arrange otherAbove otherBelow) := by
  cases op with
  | pop | pop2 => exact .nil
  | swap => exact List.rel_append lower upper
  | dup | dupX1 | dupX2 | dup2 | dup2X1 | dup2X2 =>
    exact List.rel_append (List.rel_append upper lower) upper

/-- The same rearrangement keeps what is known of each place. -/
theorem StackOp.Rearranges.forall₂ {op : StackOp} (firstPositive : ∀ value, 0 < first value)
    (secondPositive : ∀ value, 0 < second value)
    (widths : ∀ {upper lower}, related upper lower → first upper = second lower)
    {before after : List α} {otherBefore otherAfter : List β}
    (rearranges : op.Rearranges first before after)
    (others : op.Rearranges second otherBefore otherAfter)
    (all : List.Forall₂ related before otherBefore) : List.Forall₂ related after otherAfter := by
  obtain ⟨above, below, rest, upper, lower, rfl, rfl⟩ := rearranges
  obtain ⟨otherAbove, otherBelow, otherRest, otherUpper, otherLower, rfl, rfl⟩ := others
  have split {above rest : List α} {otherAbove otherRest : List β} :=
    @forall₂_slots _ _ related first second firstPositive secondPositive widths above rest otherAbove
      otherRest
  rw [List.append_assoc, List.append_assoc] at all
  obtain ⟨aboveAll, all⟩ := split (upper.trans otherUpper.symm) all
  obtain ⟨belowAll, restAll⟩ := split (lower.trans otherLower.symm) all
  exact List.rel_append (forall₂_arrange op aboveAll belowAll) restAll

end Rearranging

theorem VType.width_pos (type : VType) : 0 < type.width := by
  have width := type.width_eq
  omega

namespace FrameM

variable {α β : Type} {before after : VFrame} {type : VType}

theorem width_ofFieldType (type : FieldType) : (VType.ofFieldType type).width = type.width := by
  rcases type with (_ | _ | _ | _ | _ | _ | _ | _) | _ <;> rfl

theorem Fixed.ne_uninitialized (fixed : Fixed type) (source : Nat) : type ≠ .uninitialized source := by
  rintro rfl
  cases fixed Nat.succ

/-- Where an action goes well, it takes operands and leaves the results. -/
def Exchanges (takes : Nat) (results : List VType) (action : FrameM α) : Prop :=
  ∀ ⦃before value after⦄, action before = .ok (value, after) →
    after = ⟨before.locals, results ++ before.stack.drop takes⟩

/-- Whatever frame it starts from, the results are the same. They are not new objects, and they need
the slots that the exchange names. -/
def Yields (exchange : Exchange) (action : FrameM α) : Prop :=
  ∃ results : List VType, ∀ ⦃before value after⦄, action before = .ok (value, after) →
    results.map VerificationType.width = exchange.leaves ∧ (∀ type ∈ results, Fixed type) ∧
      after = ⟨before.locals, results ++ before.stack.drop exchange.takes⟩

section Exchanges

variable {takes more : Nat} {results : List VType}

theorem Exchanges.pure (value : α) : Exchanges 0 [] (Pure.pure value : FrameM α) := by
  intro before result after done
  cases done
  rfl

theorem Exchanges.fail (fault : TypeFault) :
    Exchanges takes results (FrameM.fail fault : FrameM α) := by
  intro before result after done
  cases done

theorem Exchanges.taken {action : FrameM α} (exchanges : Exchanges takes [] action) {value : α}
    (done : action before = .ok (value, after)) :
    after = ⟨before.locals, before.stack.drop takes⟩ :=
  exchanges done

/-- Operands are taken one after the other, and the last action leaves the results. -/
theorem Exchanges.bind {action : FrameM α} {next : α → FrameM β} (first : Exchanges takes [] action)
    (second : ∀ value, Exchanges more results (next value)) :
    Exchanges (takes + more) results (action >>= next) := by
  intro before result after done
  obtain ⟨⟨value, middle⟩, ran, later⟩ := Outcome.bind_ok.mp done
  obtain rfl := first ran
  rw [second value later, List.nil_append, List.drop_drop]

theorem Exchanges.ite {condition : Prop} [Decidable condition] {action other : FrameM α}
    (yes : Exchanges takes results action) (no : Exchanges takes results other) :
    Exchanges takes results (if condition then action else other) := by
  split
  · exact yes
  · exact no

theorem Exchanges.none {action : FrameM α} (exchanges : Exchanges takes [] action) :
    Yields ⟨takes, []⟩ action :=
  ⟨[], fun _ _ _ done => ⟨rfl, nofun, exchanges done⟩⟩

theorem Exchanges.one {action : FrameM α} (exchanges : Exchanges takes [type] action)
    (fixed : Fixed type) : Yields ⟨takes, [type.width]⟩ action :=
  ⟨[type], fun _ _ _ done => ⟨rfl, by simpa using fixed, exchanges done⟩⟩

theorem exchanges_push (type : VType) : Exchanges 0 [type] (push type) := by
  intro before result after done
  cases done
  rfl

theorem exchanges_pop : Exchanges 1 [] pop := by
  intro before type after done
  obtain ⟨locals, stack⟩ := before
  cases stack with
  | nil => cases done
  | cons type rest =>
    cases done
    rfl

theorem exchanges_popReference : Exchanges 1 [] popReference :=
  exchanges_pop.bind fun type => .ite (.pure type) (.fail _)

theorem exchanges_popExpecting (expected : VType) : Exchanges 1 [] (popExpecting expected) :=
  exchanges_pop.bind fun _ => .ite (.pure _) (.fail _)

theorem exchanges_popArray : Exchanges 1 [] popArray := by
  show Exchanges (1 + 0) [] popArray
  refine exchanges_pop.bind fun type => ?_
  split
  · exact .pure _
  · exact .pure _
  · exact .fail _

theorem exchanges_popForField (type : FieldType) : Exchanges 1 [] (popForField type) := by
  cases type with
  | base type => exact exchanges_popExpecting _
  | ref type => exact exchanges_popReference.bind fun _ => .pure _

theorem exchanges_convert (expected result : VType) :
    Exchanges 1 [result] (convert expected result) :=
  (exchanges_popExpecting expected).bind fun _ => exchanges_push result

theorem exchanges_forM {action : α → FrameM Unit} (each : ∀ value, Exchanges 1 [] (action value))
    (values : List α) : Exchanges values.length [] (values.forM action) := by
  induction values with
  | nil => exact .pure _
  | cons value values ih =>
    rw [List.length_cons, Nat.add_comm]
    exact (each value).bind fun _ => ih

theorem exchanges_popArguments (parameters : List FieldType) :
    Exchanges parameters.length [] (popArguments parameters) := by
  rw [← List.length_reverse]
  exact exchanges_forM exchanges_popForField _

/-- A method leaves its result, if it has one. -/
theorem yields_result {action : FrameM Unit} {result : Option FieldType}
    (exchanges : Exchanges takes (result.map VType.ofFieldType).toList action) :
    Yields ⟨takes, (result.map FieldType.width).toList⟩ action := by
  cases result with
  | none => exact exchanges.none
  | some type =>
    rw [Option.map_some, ← width_ofFieldType]
    exact exchanges.one (fixed_ofFieldType type)

theorem exchanges_pushResult (result : Option FieldType) :
    Exchanges 0 (result.map VType.ofFieldType).toList (pushResult result) := by
  cases result with
  | none => exact .pure _
  | some type => exact exchanges_push _

/-- Only what is found in an array of references is not known beforehand. -/
theorem yields_plain {op : Plain} {exchange : Exchange} (known : op.exchange? = some exchange)
    (foreseen : op ≠ .arrayLoad .reference) : Yields exchange (plain op) := by
  have integer : Fixed .integer := fun _ => rfl
  cases op with
  | stack => cases known
  | nop =>
    cases known
    exact (Exchanges.pure _).none
  | push constant =>
    cases known
    exact (exchanges_push _).one (fixed_small constant)
  | arrayLoad kind =>
    cases known
    have loads (type : VType) :
        Exchanges 2 [type] (popExpecting .integer >>= fun _ => popArray >>= fun _ => push type) :=
      (exchanges_popExpecting .integer).bind fun _ =>
        exchanges_popArray.bind fun _ => exchanges_push type
    cases kind with
    | reference => exact (foreseen rfl).elim
    | long => exact (loads .long).one fun _ => rfl
    | float => exact (loads .float).one fun _ => rfl
    | double => exact (loads .double).one fun _ => rfl
    | int | byte | char | short => exact (loads .integer).one fun _ => rfl
  | arrayStore kind =>
    cases known
    have rest : Exchanges 2 []
        (popExpecting .integer >>= fun _ => popArray >>= fun _ => Pure.pure ()) :=
      (exchanges_popExpecting .integer).bind fun _ => exchanges_popArray.bind fun _ => .pure _
    simp only [plain]
    split
    · exact Exchanges.none ((exchanges_popExpecting _).bind fun _ => rest)
    · exact Exchanges.none (exchanges_popReference.bind fun _ => rest)
  | arithmetic op kind =>
    cases known
    exact Exchanges.one ((exchanges_popExpecting _).bind fun _ =>
      (exchanges_popExpecting _).bind fun _ => exchanges_push _) (fixed_numeric kind)
  | bitwise op kind =>
    cases known
    exact Exchanges.one ((exchanges_popExpecting _).bind fun _ =>
      (exchanges_popExpecting _).bind fun _ => exchanges_push _) (fixed_integral kind)
  | negate kind =>
    cases known
    exact (exchanges_convert _ _).one (fixed_numeric kind)
  | convert conversion =>
    cases known
    exact (exchanges_convert _ _).one (fixed_conversion conversion).2
  | shift op kind =>
    cases known
    exact Exchanges.one ((exchanges_popExpecting _).bind fun _ => exchanges_convert _ _)
      (fixed_integral kind)
  | compareLongs | compareFloats =>
    cases known
    exact Exchanges.one ((exchanges_popExpecting _).bind fun _ => exchanges_convert _ _) integer
  | arrayLength =>
    cases known
    exact Exchanges.one (exchanges_popArray.bind fun _ => exchanges_push _) integer
  | monitorEnter | monitorExit =>
    cases known
    exact Exchanges.none (exchanges_popReference.bind fun _ => .pure _)

theorem yields_pushLoadable (width : Nat) (constant : Loadable) :
    Yields ⟨0, [width]⟩ (pushLoadable width constant) := by
  unfold pushLoadable
  simp only
  split
  · rename_i same
    exact beq_iff_eq.mp same ▸ (exchanges_push _).one (fixed_loadable constant)
  · exact ⟨[], nofun⟩

/-- A call takes the receiver under the arguments, unless it is a constructor's. -/
theorem exchanges_invoke (thisClass : BinaryName) {kind : InvokeKind} {method : MethodRef}
    (ordinary : ¬ (kind = .special ∧ method.isConstructor = true)) :
    Exchanges (kind.exchange method.descriptor).takes
      (method.descriptor.result.map VType.ofFieldType).toList (invoke thisClass kind method) := by
  refine (exchanges_popArguments _).bind fun _ => ?_
  rw [if_neg ordinary]
  by_cases isStatic : kind = .static
  · rw [if_neg (not_not_intro isStatic), if_pos isStatic]
    exact exchanges_pushResult _
  · rw [if_pos isStatic, if_neg isStatic]
    exact exchanges_popReference.bind fun _ => exchanges_pushResult _

theorem yields_invoke (thisClass : BinaryName) {kind : InvokeKind} {method : MethodRef}
    (ordinary : ¬ (kind = .special ∧ method.isConstructor = true)) :
    Yields (kind.exchange method.descriptor) (invoke thisClass kind method) :=
  yields_result (exchanges_invoke thisClass ordinary)

theorem yields_field (op : FieldOp) (ref : FieldRef) :
    Yields (op.exchange ref.type) (field op ref) := by
  have pushes := exchanges_push (VType.ofFieldType ref.type)
  have gives {takes : Nat} {action : FrameM Unit}
      (exchanges : Exchanges takes [.ofFieldType ref.type] action) :
      Yields ⟨takes, [ref.type.width]⟩ action :=
    width_ofFieldType ref.type ▸ exchanges.one (fixed_ofFieldType ref.type)
  cases op with
  | getStatic => exact gives pushes
  | putStatic => exact (exchanges_popForField _).none
  | getField => exact gives (exchanges_popReference.bind fun _ => pushes)
  | putField =>
    exact Exchanges.none
      ((exchanges_popForField _).bind fun _ => exchanges_popReference.bind fun _ => .pure _)

/-- Instructions with operands and results take and leave just these. -/
theorem yields_instruction (thisClass : BinaryName) (item : Nat) {step : SymInstruction}
    {exchange : Exchange} (known : step.exchange? = some exchange)
    (ordinary : ∀ method, method.isConstructor = true → step ≠ .invoke .special method)
    (foreseen : step ≠ .plain (.arrayLoad .reference)) :
    Yields exchange (instruction thisClass item step) := by
  cases step with
  | plain op => exact yields_plain known fun same => foreseen (congrArg _ same)
  | pushByte | pushShort =>
    cases known
    exact (exchanges_push .integer).one fun _ => rfl
  | loadConstant constant | loadWideConstant constant =>
    cases known
    exact yields_pushLoadable _ constant
  | load | store | increment => cases known
  | field op ref =>
    cases known
    exact yields_field op ref
  | invoke kind method =>
    cases known
    refine yields_invoke thisClass ?_
    rintro ⟨rfl, isConstructor⟩
    exact ordinary method isConstructor rfl
  | invokeDynamic site =>
    cases known
    exact yields_result ((exchanges_popArguments _).bind fun _ => exchanges_pushResult _)
  | newPrimitiveArray =>
    cases known
    exact (exchanges_convert _ _).one fun _ => rfl
  | onClass op type =>
    cases op with
    | new => cases known
    | newArray =>
      cases known
      exact (exchanges_convert _ _).one fun _ => rfl
    | checkCast | instanceOf =>
      cases known
      exact Exchanges.one (exchanges_popReference.bind fun _ => exchanges_push _) fun _ => rfl
  | newMultiArray type dimensions =>
    cases known
    have pops := exchanges_forM (fun _ : Unit => exchanges_popExpecting .integer)
      (List.replicate dimensions.toNat ())
    rw [List.length_replicate] at pops
    exact Exchanges.one (pops.bind fun _ => exchanges_push _) fun _ => rfl

end Exchanges

end FrameM

/-- What is known of the elements of an array of references, if it is known to be one. -/
inductive VType.HasElement : VType → VType → Prop where
  | null : HasElement .null .null
  | object {array element : RefType} (found : array.elementType? = some (.ref element)) :
      HasElement (.object array) (.object element)

theorem VType.HasElement.width_eq {array element : VType} (holds : VType.HasElement array element) :
    element.width = 1 := by
  cases holds <;> rfl

theorem VType.HasElement.unique {array first second : VType} (holds : VType.HasElement array first)
    (other : VType.HasElement array second) : first = second := by
  cases holds with
  | null =>
    cases other
    rfl
  | object found =>
    cases other with
    | object otherFound =>
      cases found.symm.trans otherFound
      rfl

theorem VType.HasElement.fixed {array element : VType} (holds : VType.HasElement array element) :
    FrameM.Fixed element := by
  cases holds <;> exact fun _ => rfl

namespace FrameM

variable {before after : VFrame}

theorem pushElement_ok {array : VType} (done : pushElement array before = .ok ((), after)) :
    ∃ element, VType.HasElement array element ∧ after = ⟨before.locals, element :: before.stack⟩ := by
  match array with
  | .object type =>
    cases found : type.elementType? with
    | none =>
      simp only [pushElement, found] at done
      cases done
    | some element =>
      simp only [pushElement, found] at done
      cases element with
      | base => cases done
      | ref =>
        cases done
        exact ⟨_, .object found, rfl⟩
  | .null =>
    cases done
    exact ⟨_, .null, rfl⟩
  | .top | .integer | .float | .long | .double | .uninitializedThis | .uninitialized _ => cases done

/-- What is loaded from an array of references is one of its elements. -/
theorem arrayLoad_ok (done : plain (.arrayLoad .reference) before = .ok ((), after)) :
    ∃ index array rest element, before.stack = index :: array :: rest ∧
      VType.HasElement array element ∧ after = ⟨before.locals, element :: rest⟩ := by
  obtain ⟨⟨_, popped⟩, index, later⟩ := Outcome.bind_ok.mp done
  obtain ⟨⟨array, _⟩, ran, later⟩ := Outcome.bind_ok.mp later
  obtain ⟨element, holds, rfl⟩ := pushElement_ok later
  have locals : popped.locals = before.locals := keeps_popExpecting _ index
  have same := keeps_popArray ran
  exact ⟨_, array, _, element, by rw [stack_of_popExpecting index, stack_of_popArray ran], holds, by rw [same, locals]⟩

section Rearranging

variable {next : VType → FrameM α} {value : α}

theorem bind_pop_ok (done : (pop >>= next) before = .ok (value, after)) :
    ∃ type rest, before.stack = type :: rest ∧ next type ⟨before.locals, rest⟩ = .ok (value, after) := by
  obtain ⟨locals, stack⟩ := before
  cases stack with
  | nil => cases done
  | cons type rest => exact ⟨type, rest, rfl, done⟩

theorem bind_popSingle_ok (done : (popSingle >>= next) before = .ok (value, after)) :
    ∃ type rest, before.stack = type :: rest ∧ type.width = 1 ∧
      next type ⟨before.locals, rest⟩ = .ok (value, after) := by
  obtain ⟨⟨popped, middle⟩, ran, later⟩ := Outcome.bind_ok.mp done
  obtain ⟨type, rest, same, checked⟩ := bind_pop_ok ran
  split at checked
  · rename_i single
    cases checked
    exact ⟨_, rest, same, beq_iff_eq.mp single, later⟩
  · cases checked

/-- The two topmost slots hold two values or a wide one. -/
theorem bind_popPair_ok {narrow : VType → VType → FrameM α} {broad : VType → FrameM α}
    (done : (pop >>= fun first =>
      if first.width == 1 then popSingle >>= narrow first else broad first) before =
        .ok (value, after)) :
    ∃ pair rest, before.stack = pair ++ rest ∧ (pair.map VerificationType.width).sum = 2 ∧
      ((∃ first second, pair = [first, second] ∧
          narrow first second ⟨before.locals, rest⟩ = .ok (value, after)) ∨
        ∃ first, pair = [first] ∧ broad first ⟨before.locals, rest⟩ = .ok (value, after)) := by
  obtain ⟨first, rest, same, done⟩ := bind_pop_ok done
  split at done
  · rename_i one
    obtain ⟨second, rest, rfl, alsoOne, done⟩ := bind_popSingle_ok done
    refine ⟨[first, second], rest, same, ?_, .inl ⟨first, second, rfl, done⟩⟩
    simp [beq_iff_eq.mp one, alsoOne]
  · rename_i broad
    exact ⟨[first], rest, same, first.wide_of_not_single broad, .inr ⟨first, rfl, done⟩⟩

/-- Values that are copied or dropped are moved as a whole. -/
theorem stackOp_rearranges {op : StackOp} (done : stackOp op before = .ok ((), after)) :
    ∃ stack, op.Rearranges VerificationType.width before.stack stack ∧
      after = ⟨before.locals, stack⟩ := by
  cases op with
  | pop | dup =>
    obtain ⟨first, rest, same, one, done⟩ := bind_popSingle_ok done
    cases done
    exact ⟨_, ⟨[first], [], rest, one, rfl, same, rfl⟩, rfl⟩
  | pop2 | dup2 =>
    obtain ⟨pair, rest, same, two, ⟨first, second, rfl, done⟩ | ⟨first, rfl, done⟩⟩ :=
      bind_popPair_ok done
    all_goals
      cases done
      exact ⟨_, ⟨_, [], rest, two, rfl, same, rfl⟩, rfl⟩
  | dupX1 | swap =>
    obtain ⟨first, rest, same, one, done⟩ := bind_popSingle_ok done
    obtain ⟨second, rest, rfl, alsoOne, done⟩ := bind_popSingle_ok done
    cases done
    exact ⟨_, ⟨[first], [second], rest, one, alsoOne, same, rfl⟩, rfl⟩
  | dupX2 =>
    obtain ⟨first, rest, same, one, done⟩ := bind_popSingle_ok done
    obtain ⟨pair, rest, rfl, two, ⟨second, third, rfl, done⟩ | ⟨second, rfl, done⟩⟩ :=
      bind_popPair_ok done
    all_goals
      cases done
      exact ⟨_, ⟨[first], _, rest, one, two, same, rfl⟩, rfl⟩
  | dup2X1 =>
    -- The value below the first is taken before its width is looked at.
    obtain ⟨first, rest, same, done⟩ := bind_pop_ok done
    obtain ⟨second, rest, rfl, one, done⟩ := bind_popSingle_ok done
    split at done
    · rename_i narrow
      obtain ⟨third, rest, rfl, alsoOne, done⟩ := bind_popSingle_ok done
      cases done
      refine ⟨_, ⟨[first, second], [third], rest, ?_, alsoOne, same, rfl⟩, rfl⟩
      simp [beq_iff_eq.mp narrow, one, StackOp.upper]
    · rename_i broad
      cases done
      exact ⟨_, ⟨[first], [second], rest, first.wide_of_not_single broad, one, same, rfl⟩, rfl⟩
  | dup2X2 =>
    obtain ⟨above, rest, same, two, ⟨first, second, rfl, done⟩ | ⟨first, rfl, done⟩⟩ :=
      bind_popPair_ok done
    all_goals
      obtain ⟨below, rest, rfl, alsoTwo, ⟨third, fourth, rfl, done⟩ | ⟨third, rfl, done⟩⟩ :=
        bind_popPair_ok done
      all_goals
        cases done
        exact ⟨_, ⟨_, _, rest, two, alsoTwo, same, rfl⟩, rfl⟩

end Rearranging

end FrameM

/-- What becomes of an object when its constructor is called. -/
inductive Initializes (thisClass : BinaryName) (constructor : MethodRef) : VType → VType → Prop where
  | this : Initializes thisClass constructor .uninitializedThis (VType.ofClass thisClass)
  | created {source : Nat} :
      Initializes thisClass constructor (.uninitialized source) (.object constructor.owner)

theorem Initializes.isInitialized_eq {thisClass : BinaryName} {constructor : MethodRef}
    {old new : VType} (initializes : Initializes thisClass constructor old new) :
    old.isInitialized = false := by
  cases initializes <;> rfl

theorem Initializes.unique {thisClass : BinaryName} {constructor : MethodRef}
    {old first second : VType} (initializes : Initializes thisClass constructor old first)
    (other : Initializes thisClass constructor old second) : first = second := by
  cases initializes <;> cases other <;> rfl

/-- What an item at a position can do to the frame before it. -/
inductive FrameStep (thisClass : BinaryName) (position : Nat) (before : VFrame) :
    Item → VFrame → Prop where
  | mark {item : Item} (mark : item.isCode = false) : FrameStep thisClass position before item before
  | exchange {step : SymInstruction} {exchange : Exchange} {results : List VType}
      (known : step.exchange? = some exchange)
      (ordinary : ∀ method, method.isConstructor = true → step ≠ .invoke .special method)
      (widths : results.map VerificationType.width = exchange.leaves)
      (fixed : ∀ type ∈ results, FrameM.Fixed type) :
      FrameStep thisClass position before (.instruction step)
        ⟨before.locals, results ++ before.stack.drop exchange.takes⟩
  | rearrange {op : StackOp} {stack : List VType}
      (rearranges : op.Rearranges VerificationType.width before.stack stack) :
      FrameStep thisClass position before (.instruction (.plain (.stack op))) ⟨before.locals, stack⟩
  | load {kind : SlotKind} {slot : UInt16} {type : VType} (loads : kind.Loads type)
      (found : before.locals[slot.toNat]? = some type) :
      FrameStep thisClass position before (.instruction (.load kind slot))
        ⟨before.locals, type :: before.stack⟩
  | store {kind : SlotKind} {slot : UInt16} {type : VType} {rest : List VType}
      (loads : kind.Loads type) (top : before.stack = type :: rest) :
      FrameStep thisClass position before (.instruction (.store kind slot))
        ⟨storeLocal before.locals slot.toNat type, rest⟩
  | increment {slot : UInt16} {amount : Int16}
      (found : before.locals[slot.toNat]? = some .integer) :
      FrameStep thisClass position before (.instruction (.increment slot amount)) before
  | create {type : RefType} :
      FrameStep thisClass position before (.instruction (.onClass .new type))
        ⟨before.locals, .uninitialized position :: before.stack⟩
  | construct {constructor : MethodRef} {old new : VType}
      (isConstructor : constructor.isConstructor = true)
      (noResult : constructor.descriptor.result = none)
      (initializes : Initializes thisClass constructor old new)
      (receiver : before.stack[constructor.descriptor.parameters.length]? = some old) :
      FrameStep thisClass position before (.instruction (.invoke .special constructor))
        ⟨before.locals.map (FrameM.replaced old new),
          (before.stack.drop (constructor.descriptor.parameters.length + 1)).map
            (FrameM.replaced old new)⟩
  | branch {jump : Branch Label} :
      FrameStep thisClass position before (.branch jump)
        ⟨before.locals, before.stack.drop jump.takes⟩
  | throw {exception : VType} {rest : List VType} (top : before.stack = exception :: rest) :
      FrameStep thisClass position before (.branch .athrow) ⟨before.locals, [exception]⟩

namespace FrameM

variable {thisClass : BinaryName} {position : Nat} {before after : VFrame}

/-- A constructor call takes the arguments and the receiver, and initializes all of its copies. -/
theorem construct_ok {constructor : MethodRef} (isConstructor : constructor.isConstructor = true)
    (done : invoke thisClass .special constructor before = .ok ((), after)) :
    FrameStep thisClass position before (.instruction (.invoke .special constructor)) after := by
  obtain ⟨⟨_, popped⟩, taken, later⟩ := Outcome.bind_ok.mp done
  obtain rfl := (exchanges_popArguments _).taken taken
  simp only [isConstructor, and_self, if_true] at later
  obtain ⟨old, rest, top, later⟩ := bind_pop_ok later
  simp only at top later
  have receiver : before.stack[constructor.descriptor.parameters.length]? = some old := by
    rw [← List.head?_drop, top, List.head?_cons]
  have below : before.stack.drop (constructor.descriptor.parameters.length + 1) = rest := by
    rw [← List.tail_drop, top, List.tail_cons]
  cases result : constructor.descriptor.result with
  | some type =>
    rw [result] at later
    cases old <;> cases later
  | none =>
    have constructs {new : VType} (initializes : Initializes thisClass constructor old new)
        (same : after = ⟨before.locals.map (replaced old new), rest.map (replaced old new)⟩) :
        FrameStep thisClass position before (.instruction (.invoke .special constructor)) after := by
      rw [same, ← below]
      exact .construct isConstructor result initializes receiver
    cases old with
    | uninitializedThis =>
      simp only [result] at later
      cases later
      exact constructs .this rfl
    | uninitialized source =>
      simp only [result] at later
      cases later
      exact constructs .created rfl
    | top | integer | float | double | long | null | object => cases later

/-- What straight-line instructions can do, one case for each kind. -/
theorem instruction_step {step : SymInstruction}
    (done : instruction thisClass position step before = .ok ((), after)) :
    FrameStep thisClass position before (.instruction step) after := by
  have exchanges {exchange : Exchange} (known : step.exchange? = some exchange)
      (ordinary : ∀ method, method.isConstructor = true → step ≠ .invoke .special method) :
      FrameStep thisClass position before (.instruction step) after := by
    by_cases loads : step = .plain (.arrayLoad .reference)
    · subst loads
      cases known
      obtain ⟨index, array, rest, element, stack, holds, rfl⟩ := arrayLoad_ok done
      have below : element :: rest = [element] ++ before.stack.drop 2 := by rw [stack]; rfl
      have widths : [element].map VerificationType.width = [ElementKind.reference.width] :=
        congrArg ([·]) holds.width_eq
      have fixed : ∀ type ∈ [element], Fixed type := by simpa using holds.fixed
      rw [below]
      exact .exchange rfl ordinary widths fixed
    · obtain ⟨results, yields⟩ := yields_instruction thisClass position known ordinary loads
      obtain ⟨widths, fixed, rfl⟩ := yields done
      exact .exchange known ordinary widths fixed
  cases step with
  | load kind slot =>
    obtain ⟨type, loads, found, rfl⟩ := load_ok done
    exact .load loads found
  | store kind slot =>
    obtain ⟨type, rest, loads, top, rfl⟩ := store_ok done
    exact .store loads top
  | increment slot amount =>
    obtain ⟨⟨type, _⟩, got, later⟩ := Outcome.bind_ok.mp done
    obtain ⟨found, rfl⟩ := getLocal_ok got
    simp only at later
    split at later
    · rename_i same
      cases later
      exact .increment (same ▸ found)
    · cases later
  | plain op =>
    cases op with
    | stack op =>
      obtain ⟨stack, rearranges, rfl⟩ := stackOp_rearranges done
      exact .rearrange rearranges
    | _ => exact exchanges rfl fun _ _ same => nomatch same
  | invoke kind method =>
    by_cases constructs : kind = .special ∧ method.isConstructor = true
    · obtain ⟨rfl, isConstructor⟩ := constructs
      exact construct_ok isConstructor done
    · refine exchanges rfl fun other isConstructor same => constructs ?_
      cases same
      exact ⟨rfl, isConstructor⟩
  | onClass op type =>
    cases op with
    | new =>
      simp only [instruction, onClass] at done
      split at done
      · cases done
      · cases done
        exact .create
    | newArray | checkCast | instanceOf => exact exchanges rfl fun _ _ same => nomatch same
  | pushByte | pushShort | loadConstant | loadWideConstant | field | invokeDynamic
  | newPrimitiveArray | newMultiArray => exact exchanges rfl fun _ _ same => nomatch same

theorem exchanges_test (test : Test) {target : Label} :
    Exchanges (Branch.jumpIf test target).takes [] (FrameM.test test) := by
  cases test with
  | zero => exact exchanges_popExpecting _
  | ints => exact (exchanges_popExpecting _).bind fun _ => exchanges_popExpecting _
  | references =>
    exact exchanges_popReference.bind fun _ => exchanges_popReference.bind fun _ => .pure _
  | null => exact exchanges_popReference.bind fun _ => .pure _

/-- A branch takes its operands, unless it throws. -/
theorem exchanges_branch (result : Option FieldType) {jump : Branch Label}
    (stays : jump ≠ .athrow) : Exchanges jump.takes [] (branch result jump) := by
  cases jump with
  | jumpIf test => exact exchanges_test test
  | goto => exact .pure _
  | tableSwitch | lookupSwitch => exact exchanges_popExpecting _
  | ret kind =>
    cases kind with
    | int | long | float | double =>
      exact (exchanges_popExpecting _).bind fun _ => .ite (.pure _) (.fail _)
    | reference =>
      refine show Exchanges (1 + 0) [] _ from exchanges_popReference.bind fun _ => ?_
      split
      · exact .pure _
      · exact .fail _
    | void => exact .ite (.pure _) (.fail _)
  | athrow => exact (stays rfl).elim

/-- Only the exception is left of the stack. -/
theorem athrow_ok {result : Option FieldType}
    (done : branch result (.athrow : Branch Label) before = .ok ((), after)) :
    ∃ exception rest, before.stack = exception :: rest ∧ after = ⟨before.locals, [exception]⟩ := by
  obtain ⟨⟨exception, popped⟩, ran, later⟩ := Outcome.bind_ok.mp done
  cases later
  exact ⟨exception, popped.stack, stack_of_popReference ran, by rw [← keeps_popReference ran]⟩

theorem branch_step {result : Option FieldType} {jump : Branch Label}
    (done : branch result jump before = .ok ((), after)) :
    FrameStep thisClass position before (.branch jump) after := by
  by_cases throws : jump = .athrow
  · subst throws
    obtain ⟨exception, rest, top, rfl⟩ := athrow_ok done
    exact .throw top
  · rw [(exchanges_branch result throws).taken done]
    exact .branch

end FrameM

/-- The frame after an item is what one of the steps leads to. -/
theorem FlowGraph.after_frameStep {method : MethodContext} {position : Nat} {item : Item}
    {before after : VFrame} (done : FlowGraph.after method position before item = .ok after) :
    FrameStep method.thisClass position before item after := by
  cases item with
  | label | line =>
    cases done
    exact .mark rfl
  | instruction step => exact FrameM.instruction_step (VFrame.execute_ok.mp done)
  | branch jump => exact FrameM.branch_step (VFrame.executeBranch_ok.mp done)

end ClassWeave
