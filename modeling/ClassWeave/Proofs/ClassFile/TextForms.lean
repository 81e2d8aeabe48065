import ClassWeave.Proofs.ClassFile.RoundTrip
import ClassWeave.Proofs.Text.ShortestForms

/-!
# What becomes of the texts of a class file

A class file that was read is written with the same texts in the same places, each in its shortest
form. So the bytes of a text change exactly if it was not in this form before.
-/

namespace ClassWeave

namespace ConstantTable

open Constant (Stored textBytes)

/-- The bytes of a text before and after it has been read and written. -/
def Rewritten (old new : Bytes) : Prop :=
  ∃ text, ModifiedUtf8.decode old = some text ∧ new = ModifiedUtf8.encode text

theorem Rewritten.same_iff {old new : Bytes} (rewritten : Rewritten old new) :
    new = old ↔ ModifiedUtf8.Shortest old := by
  obtain ⟨text, decoded, rfl⟩ := rewritten
  exact ModifiedUtf8.encode_eq_iff decoded

theorem Rewritten.decode_eq {old new : Bytes} (rewritten : Rewritten old new) :
    ModifiedUtf8.decode new = ModifiedUtf8.decode old := by
  obtain ⟨text, decoded, rfl⟩ := rewritten
  rw [ModifiedUtf8.decode_encode, decoded]

/-- Texts follow each other in the same order before and after. -/
theorem textBodies_rewritten {constants : List Constant} {chunks : List Bytes}
    (each : List.Forall₂ Stored constants chunks) (rest later : Bytes) :
    List.Forall₂ Rewritten
      (textBodies (constants.map Constant.width).sum (chunks.flatten ++ rest))
      (textBodies (constants.map Constant.width).sum
        (constants.flatMap Constant.encode ++ later)) := by
  induction each with
  | nil => exact .nil
  | @cons constant bytes constants chunks stored _ ih =>
    simp only [List.map_cons, List.sum_cons, List.flatten_cons, List.flatMap_cons,
      List.append_assoc]
    rw [Nat.add_comm]
    cases stored with
    | @text text body decoded short =>
      have fits := (ModifiedUtf8.length_encode_le decoded).trans_lt short
      rw [show (Constant.utf8 text).width = 1 from rfl,
        show (Constant.utf8 text).encode = textBytes (ModifiedUtf8.encode text) from rfl,
        textBodies_text short, textBodies_text fits]
      exact .cons ⟨text, decoded, rfl⟩ ih
    | other notText => rwa [textBodies_other notText, textBodies_other notText]

end ConstantTable

namespace ClassFile

open ConstantTable (Rewritten)

theorem textBodies_encode {bytes : Bytes} {file : ClassFile} (parsed : parse bytes = .ok file) :
    List.Forall₂ Rewritten (textBodies bytes) (textBodies file.encode) := by
  obtain ⟨rest, fileRead, nothing⟩ := parse_ok.mp parsed
  obtain ⟨-, -, middle, last, constantsRead, start, finish⟩ := read_ok fileRead
  obtain ⟨chunks, stored, slots, -, bound, constants⟩ := ConstantTable.read_ok constantsRead
  change bytes = _ at start
  rw [start, constants, encode_eq, ConstantTable.encode, List.append_assoc,
    textBodies_eq file bound, textBodies_eq file bound, ← slots]
  exact ConstantTable.textBodies_rewritten stored _ _

/-- Bytes that are read as a text are written again exactly if they are its shortest form. In a class
file that is read and written, each text stays what it was, and its bytes do exactly if they were the
shortest form. -/
theorem texts_kept_iff (body bytes : Bytes) :
    (∀ text, ModifiedUtf8.decode body = some text →
      (ModifiedUtf8.encode text = body ↔ ModifiedUtf8.Shortest body)) ∧
    ∀ file, parse bytes = .ok file →
      List.Forall₂ (fun old new => (new = old ↔ ModifiedUtf8.Shortest old) ∧
        ModifiedUtf8.decode new = ModifiedUtf8.decode old) (textBodies bytes)
        (textBodies file.encode) := by
  constructor
  · intro text decoded
    exact ModifiedUtf8.encode_eq_iff decoded
  · intro file parsed
    exact (textBodies_encode parsed).imp fun old new rewritten =>
      ⟨rewritten.same_iff, rewritten.decode_eq⟩

end ClassFile

/-- A class `A` whose name is spelt in two bytes. -/
def longNameBytes : Bytes :=
  [0xCA, 0xFE, 0xBA, 0xBE, 0, 0, 0, 52, 0, 3, 1, 0, 2, 0xC1, 0x81, 7, 0, 1,
    0, 0x20, 0, 2, 0, 0, 0, 0, 0, 0, 0, 0, 0, 0]

def longNameClass : ClassFile where
  version := ⟨52, 0⟩
  constants := .ofList [.utf8 "A", .classRef 1]
  flags := 0x20
  thisClass := 2
  superClass := none
  interfaces := []
  fields := []
  methods := []
  attributes := []

theorem longName_parsed : ClassFile.parse longNameBytes = .ok longNameClass := by cbv

theorem longName_kept_iff : ModifiedUtf8.decode [0xC1, 0x81] = some "A" ∧
    (ModifiedUtf8.encode "A" = [0xC1, 0x81] ↔ ModifiedUtf8.Shortest [0xC1, 0x81]) ∧
    ClassFile.parse longNameBytes = .ok longNameClass ∧
    List.Forall₂ (fun old new => (new = old ↔ ModifiedUtf8.Shortest old) ∧
      ModifiedUtf8.decode new = ModifiedUtf8.decode old) (ClassFile.textBodies longNameBytes)
      (ClassFile.textBodies longNameClass.encode) := by
  have decoded : ModifiedUtf8.decode [0xC1, 0x81] = some "A" := by cbv
  obtain ⟨text, file⟩ := ClassFile.texts_kept_iff [0xC1, 0x81] longNameBytes
  exact ⟨decoded, text _ decoded, longName_parsed, file _ longName_parsed⟩

/-- The two bytes of the letter are read, but one byte is written. -/
theorem longName_shortened : ¬ (∀ (body : Bytes) (text : String),
      ModifiedUtf8.decode body = some text → ModifiedUtf8.encode text = body) ∧
    ¬ ∀ (bytes : Bytes) (file : ClassFile), ClassFile.parse bytes = .ok file →
      ClassFile.textBodies file.encode = ClassFile.textBodies bytes := by
  constructor
  · intro claimed
    have same := claimed [0xC1, 0x81] "A" (by cbv)
    have written : ModifiedUtf8.encode "A" = [0x41] := by cbv
    rw [written] at same
    exact absurd same (by decide)
  · intro claimed
    have same := claimed _ _ longName_parsed
    have before : ClassFile.textBodies longNameBytes = [[0xC1, 0x81]] := by cbv
    have after : ClassFile.textBodies longNameClass.encode = [[0x41]] := by cbv
    rw [before, after] at same
    exact absurd same (by decide)

end ClassWeave
