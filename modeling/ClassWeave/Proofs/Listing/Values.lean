import Mathlib
import ClassWeave.Listing.Frame
import ClassWeave.Listing.Spec
import ClassWeave.Proofs.Descriptor.RoundTrip
import ClassWeave.Proofs.Hook.SpecFile

/-!
# Listed values are read back

A listing loses nothing. The readers of constants, operands, types, stack maps and shapes find each
value again in the term that stands for it, so two values are never listed alike.
-/

namespace ClassWeave

namespace Term

@[simp] theorem toCall?_call (head : String) (arguments : List Term) :
    (call head arguments).toCall? = some (head, arguments) :=
  rfl

theorem toCall?_eq_some {term : Term} {head : String} {arguments : List Term} :
    term.toCall? = some (head, arguments) ↔ term = call head arguments := by
  constructor
  · intro isCall
    unfold toCall? at isCall
    split at isCall
    · cases isCall
      rfl
    · cases isCall
  · intro same
    rw [same, toCall?_call]

@[simp] theorem toInt?_number (value : Int) : (number value).toInt? = some value :=
  rfl

@[simp] theorem toNat?_ofNat (value : Nat) : (ofNat value).toNat? = some value := by
  simp [ofNat, toNat?]

@[simp] theorem toNat?_number (value : Nat) : (number value).toNat? = some value :=
  toNat?_ofNat value

@[simp] theorem toUInt16?_ofUInt16 (value : UInt16) : (ofUInt16 value).toUInt16? = some value := by
  simp [ofUInt16, toUInt16?]

@[simp] theorem toText?_text (value : String) : (text value).toText? = some value :=
  rfl

@[simp] theorem toFlag?_flag (value : Bool) : (flag value).toFlag? = some value :=
  rfl

/-- Lists are read back one by one. -/
theorem mapM_map {α : Type} {toTerm : α → Term} {ofTerm? : Term → Option α}
    (readBack : ∀ value, ofTerm? (toTerm value) = some value) (values : List α) :
    (values.map toTerm).mapM ofTerm? = some values := by
  induction values with
  | nil => rfl
  | cons value values ih => simp [readBack, ih]

end Term

section Digits

@[simp] theorem toInt?_toString (value : Int) : (toString value).toInt? = some value :=
  Int.toInt?_repr value

theorem hexValue?_digitChar : ∀ digit < 16, hexValue? digit.digitChar = some digit := by
  decide

theorem foldlM_toDigits (value : Nat) : (Nat.toDigits 16 value).foldlM
    (fun value c => return 16 * value + (← hexValue? c)) 0 = some value := by
  induction value using Nat.strongRecOn with
  | ind value ih =>
    rw [Nat.toDigits_eq_if (by decide)]
    by_cases single : value < 16
    · rw [if_pos single]
      simp [hexValue?_digitChar value single]
    · have last : value % 16 < 16 := Nat.mod_lt value (by decide)
      rw [if_neg single, List.foldlM_append, ih (value / 16) (by omega)]
      simp [hexValue?_digitChar _ last]
      omega

/-- Zeros in front of the digits do not count. -/
@[simp] theorem readHex?_hexDigits (width value : Nat) :
    readHex? (hexDigits width value) = some value := by
  have zeros (count : Nat) : (List.replicate count '0').foldlM
      (fun value c => return 16 * value + (← hexValue? c)) 0 = some 0 := by
    induction count with
    | zero => rfl
    | succ count ih =>
      rw [List.replicate_succ, List.foldlM_cons]
      exact ih
  rw [readHex?, hexDigits, String.toList_ofList, List.foldlM_append, zeros]
  exact foldlM_toDigits value

theorem hexDigits_byte {value : Nat} (short : value < 256) : (hexDigits 2 value).toList =
    [(value / 16).digitChar, (value % 16).digitChar] := by
  rw [hexDigits, String.toList_ofList, Nat.toDigits_eq_if (by decide)]
  by_cases single : value < 16
  · have zero : value / 16 = 0 := Nat.div_eq_of_lt single
    rw [if_pos single, zero, Nat.mod_eq_of_lt single]
    rfl
  · have high : value / 16 < 16 := by omega
    rw [if_neg single, Nat.toDigits_of_lt_base high]
    rfl

theorem bytesFrom_digits (seen bytes : List UInt8) :
    bytesFrom seen (bytes.flatMap fun byte => (hexDigits 2 byte.toNat).toList) =
      some (seen.reverse ++ bytes) := by
  induction bytes generalizing seen with
  | nil => simp [bytesFrom]
  | cons byte bytes ih =>
    have short : byte.toNat < 256 := byte.toNat_lt
    have high := hexValue?_digitChar (byte.toNat / 16) (by omega)
    have low := hexValue?_digitChar (byte.toNat % 16) (by omega)
    have byteBack : UInt8.ofNat (16 * (byte.toNat / 16) + byte.toNat % 16) = byte := by
      rw [Nat.div_add_mod]
      exact UInt8.ofNat_toNat
    rw [List.flatMap_cons, hexDigits_byte short]
    simp only [List.cons_append, List.nil_append, bytesFrom, high, low]
    change bytesFrom (UInt8.ofNat (16 * (byte.toNat / 16) + byte.toNat % 16) :: seen) _ = _
    rw [byteBack, ih, List.reverse_cons, List.append_assoc, List.singleton_append]

/-- Pairs of digits are read back as the bytes they stand for. -/
theorem bytesOfHex?_hexOfBytes (bytes : List UInt8) : bytesOfHex? (hexOfBytes bytes) = some bytes := by
  rw [bytesOfHex?, hexOfBytes, String.toList_ofList, bytesFrom_digits]
  rfl

end Digits

theorem Constant.ofTerm?_toTerm (constant : Constant) :
    ofTerm? constant.toTerm = some constant := by
  have single (make : ConstantIndex → Constant) (index : ConstantIndex) : (do
      return make (← (Term.ofUInt16 index).toUInt16?)) = some (make index) := by
    simp
  have pair (make : ConstantIndex → ConstantIndex → Constant) (first second : ConstantIndex) :
      ofPair? make (.ofUInt16 first) (.ofUInt16 second) = some (make first second) := by
    simp [ofPair?]
  cases constant with
  | utf8 value => rfl
  | integer value =>
    change (do return integer (Int32.ofInt (← (Term.number value.toInt).toInt?))) = _
    simp
  | float bits =>
    have read (digits : String) : ofTerm? (.call "Float" [.text digits]) = (do
        return float (UInt32.ofNat (← readHex? digits))) := rfl
    rw [toTerm, read]
    simp
  | long value =>
    change (do return long (Int64.ofInt (← (toString value.toInt).toInt?))) = _
    simp
  | double bits =>
    have read (digits : String) : ofTerm? (.call "Double" [.text digits]) = (do
        return double (UInt64.ofNat (← readHex? digits))) := rfl
    rw [toTerm, read]
    simp
  | classRef name => exact single classRef name
  | string value => exact single string value
  | fieldRef owner signature => exact pair fieldRef owner signature
  | methodRef owner signature isInterface =>
    cases isInterface with
    | false => exact pair (methodRef · · false) owner signature
    | true => exact pair (methodRef · · true) owner signature
  | nameAndType name descriptor => exact pair nameAndType name descriptor
  | methodHandle kind member => cases kind <;> exact single (methodHandle _) member
  | methodType descriptor => exact single methodType descriptor
  | dynamic bootstrap signature => exact pair dynamic bootstrap signature
  | invokeDynamic bootstrap signature => exact pair invokeDynamic bootstrap signature
  | module name => exact single module name
  | package name => exact single package name

section Operands

@[simp] theorem RefType.ofTerm?_className (type : RefType) :
    ofTerm? (.text type.className) = some type := by
  simp [ofTerm?, ofClassName_className, Except.toOption]

@[simp] theorem BinaryName.ofTerm?_text (name : BinaryName) :
    ofTerm? (.text name.text) = some name := by
  simp [ofTerm?, ofString_text, Except.toOption]

@[simp] theorem UnqualifiedName.ofTerm?_text (name : UnqualifiedName) :
    ofTerm? (.text name.text) = some name := by
  simp [ofTerm?, ofString_text, Except.toOption]

@[simp] theorem FieldType.ofTerm?_render (type : FieldType) :
    ofTerm? (.text type.render) = some type := by
  simp [ofTerm?, parse_render, Except.toOption]

@[simp] theorem MethodDescriptor.ofTerm?_render (descriptor : MethodDescriptor) :
    ofTerm? (.text descriptor.render) = some descriptor := by
  simp [ofTerm?, parse_render, Except.toOption]

@[simp] theorem Loadable.ofTerm?_toTerm (constant : Loadable) :
    ofTerm? constant.toTerm = some constant := by
  cases constant <;> simp [toTerm, ofTerm?]

/-- Operands are read back by the reader of their kind. -/
@[simp] theorem Symbolic.ofTerm?_toTerm {kind : OperandKind} (operand : Symbolic kind) :
    ofTerm? kind operand.toTerm = some operand := by
  cases kind with
  | classRef => exact RefType.ofTerm?_className operand
  | loadable => exact Loadable.ofTerm?_toTerm operand
  | field => simp [ofTerm?, toTerm, FieldRef.toTerm, FieldRef.ofTerm?]
  | method => simp [ofTerm?, toTerm, MethodRef.toTerm, MethodRef.ofTerm?]
  | callSite => simp [ofTerm?, toTerm, CallSiteRef.toTerm, CallSiteRef.ofTerm?]

end Operands

section Frames

/-- Types are read back if what they are made of is. -/
theorem VerificationType.ofTerm?_toTerm {κ υ : Type} {classTerm : κ → Term} {sourceTerm : υ → Term}
    {classOf : Term → Option κ} {sourceOf : Term → Option υ}
    (classes : ∀ type, classOf (classTerm type) = some type)
    (sources : ∀ source, sourceOf (sourceTerm source) = some source)
    (type : VerificationType κ υ) :
    ofTerm? classOf sourceOf (type.toTerm classTerm sourceTerm) = some type := by
  cases type with
  | object type => simp [toTerm, ofTerm?, Term.call, classes]
  | uninitialized source => simp [toTerm, ofTerm?, Term.call, sources]
  | _ => rfl

@[simp] theorem VerificationType.storedOfTerm?_storedToTerm (type : StoredType) :
    storedOfTerm? (storedToTerm type) = some type :=
  ofTerm?_toTerm Term.toUInt16?_ofUInt16 Term.toUInt16?_ofUInt16 type

theorem VerificationType.inferredOfTerm?_inferredToTerm (type : VType) :
    inferredOfTerm? (inferredToTerm type) = some type :=
  ofTerm?_toTerm RefType.ofTerm?_className Term.toNat?_ofNat type

theorem StackMapEntry.ofTerm?_toTerm (entry : StackMapEntry) :
    ofTerm? entry.toTerm = some entry := by
  have types := Term.mapM_map VerificationType.storedOfTerm?_storedToTerm
  cases entry <;> simp [toTerm, ofTerm?, typesToTerm, types]

end Frames

section Specs

@[simp] theorem FieldRef.checkedOfTerm?_toTerm (field : FieldRef) :
    checkedOfTerm? field.toTerm = some (.ok field) := by
  simp [checkedOfTerm?, toTerm, BinaryName.checkName_text, UnqualifiedName.checkName_text,
    fieldTypeOf_render]
  rfl

@[simp] theorem CallSite.ofTerm?_toTerm (site : CallSite) :
    ofTerm? site.toTerm = some (.ok site) := by
  simp [ofTerm?, toTerm, ofTexts_words]

/-- A listed shape has no fault. -/
theorem TriggerShape.ofTerm?_toTerm (shape : TriggerShape) :
    ofTerm? shape.toTerm = some (.ok shape) := by
  cases shape <;>
    simp [toTerm, ofTerm?, BinaryName.checkName_text, UnqualifiedName.checkName_text] <;> rfl

/-- Listed phases tell everything that a phase holds. -/
theorem TriggerPhase.toTerm_injective : Function.Injective toTerm := by
  intro first second same
  have ofIndex (label other : Label) : label.index = other.index → label = other := by
    cases label
    cases other
    simp
  cases first <;> cases second <;>
    simp_all [toTerm, Term.call, Term.ofUInt16, Term.ofNat, UInt16.toNat_inj]
  exact ofIndex _ _ same.2

end Specs

end ClassWeave
