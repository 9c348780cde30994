import IonLiteral.Proofs.Blocks
import IonLiteral.Proofs.InUnits

/-! # Bytes as code units

A clob and the string whose code units have the values of its bytes are written alike for a sink that
escapes, operation by operation. The two scans meet in the characters that have these values: both
cut the same runs, and the entry that the table has for a byte is the escape that the string gets for
the character.
-/

namespace IonLiteral

/-- A scan of what is seen of things is a scan of the things. -/
theorem Piece.scan_map {α β γ : Type} (toChar : β → Char) (special? : β → Option γ) (view : α → β)
    (as : List α) :
    scan toChar special? (as.map view) = scan (toChar ∘ view) (special? ∘ view) as := by
  unfold scan
  rw [List.foldr_map]
  rfl

namespace Form

/-- The character of a byte is unescaped exactly if the table has no entry for the byte. -/
theorem isUnescaped_ofUInt8 (form : Form) (byte : UInt8) :
    form.isUnescaped (Char.ofUInt8 byte) = (form.escape? byte).isNone := by
  rw [isUnescaped, decide_eq_true (CodePoint.ofUInt8_latin byte), Bool.true_and,
    CodePoint.toUInt8_ofUInt8]

/-- **Bytes are written as their characters are**, for a sink that escapes. -/
theorem byteCalls_eq_bodyCalls (form : Form) (bytes : List UInt8) :
    form.byteCalls bytes = form.bodyCalls true (bytes.map Char.ofUInt8) := by
  have alike : Piece.single Char.ofUInt8 form.escape? (fun escape => [.ascii escape.text]) =
      Piece.single (id ∘ Char.ofUInt8) (form.special? ∘ Char.ofUInt8)
        (Special.calls form true) := by
    funext byte
    rw [form.single_escape?]
    exact (form.single_special? true (Char.ofUInt8 byte)).symm
  have plainAlike (byte : UInt8) :
      ((form.special? ∘ Char.ofUInt8) byte).isNone = (form.escape? byte).isNone := by
    rw [Function.comp_apply, form.isNone_special?, form.isUnescaped_ofUInt8]
  rw [byteCalls, bodyCalls, scanBytes_eq_scan, scanChars_eq_scan, Piece.scan_map,
    Piece.flatMap_calls_scan fun _ => rfl, Piece.flatMap_calls_scan plainAlike, alike]
  rfl

end Form

/-! ## Widened bytes -/

/-- The character of a byte has one unit, of the same number. -/
theorem Utf16.encodeChar_ofUInt8 (byte : UInt8) :
    encodeChar (Char.ofUInt8 byte) = [byte.toUInt16] := by
  have latin := CodePoint.ofUInt8_latin byte
  have same : (Char.ofUInt8 byte).val.toUInt16 = byte.toUInt16 := UInt8.toUInt16_toUInt32 byte
  rw [encodeChar_small (UInt32.lt_trans latin (by decide)), same]

/-- The characters of bytes have units of the same numbers. -/
theorem Utf16.encode_map_ofUInt8 (bytes : List UInt8) :
    encode (bytes.map Char.ofUInt8) = bytes.map UInt8.toUInt16 := by
  rw [encode, List.flatMap_map, funext encodeChar_ofUInt8, ← List.map_eq_flatMap]

/-- The text whose code units have the values of some bytes. -/
def Text.widened (bytes : List UInt8) : Text := units (bytes.map UInt8.toUInt16)

/-- Bytes are planned as the text of the same numbers is for a sink that escapes. -/
theorem Form.byteScript_eq_batched (form : Form) (bytes : List UInt8) :
    form.byteScript bytes = (Text.widened bytes).batched form true := by
  have units : Text.widened bytes = (Text.chars (bytes.map Char.ofUInt8)).inUnits :=
    congrArg Text.units (Utf16.encode_map_ofUInt8 bytes).symm
  rw [units, Text.batched_inUnits, byteScript, byteCalls_eq_bodyCalls]
  rfl

namespace Rendering

/-- The ways to write bytes, each with the way to write a text between the same delimiters. -/
inductive Counterpart : (List UInt8 → Rendering) → (Text → Rendering) → Prop
  | short : Counterpart (fun bytes => clob (some bytes)) fun text => string (some text)
  | long : Counterpart (fun bytes => longClob (some bytes)) fun text => longString (some text)
  | json : Counterpart (fun bytes => jsonClob (some bytes)) fun text => jsonString (some text)

/-- **One plan for bytes and for their code units.** The plan for bytes is the same whether the sink
escapes or not. -/
theorem Counterpart.plan_eq {ofBytes : List UInt8 → Rendering} {ofText : Text → Rendering}
    (counterpart : Counterpart ofBytes ofText) (bytes : List UInt8) (escapesUnicode : Bool) :
    (ofBytes bytes).plan escapesUnicode = (ofText (.widened bytes)).plan true := by
  cases counterpart with
  | short =>
      -- The tables of clobs and of short strings are one.
      have clob : Form.clob.byteScript bytes = Form.shortString.byteScript bytes := rfl
      rw [plan, plan, Option.map_some, Option.map_some, clob, Form.byteScript_eq_batched]
      rfl
  | long =>
      rw [plan, plan, Option.map_some, Option.map_some, Form.byteScript_eq_batched]
      rfl
  | json =>
      rw [plan, plan, Option.map_some, Option.map_some, Form.byteScript_eq_batched]
      rfl

/-- **Clobs are written as strings of their widened bytes.** Every sink that escapes is asked for the
same operations one by one for a clob and for the string of the code units with the values of its
bytes, keeps the same and sees both end alike, also where it fails. A sink that does not escape is
asked for these operations for the clob all the same. -/
theorem clob_as_widened_string {σ : Type} (s : Sink σ) (kept : σ) (bytes : List UInt8)
    {ofBytes : List UInt8 → Rendering} {ofText : Text → Rendering}
    (counterpart : Counterpart ofBytes ofText) :
    let text := Text.units (bytes.map UInt8.toUInt16)
    let escaping : Sink σ := { s with escapesUnicode := true }
    (s.escapesUnicode = true →
      s.observe (ofBytes bytes) kept = s.observe (ofText text) kept ∧
        (ofBytes bytes).write s kept = (ofText text).write s kept) ∧
      s.observe (ofBytes bytes) kept = escaping.observe (ofText text) kept := by
  intro text escaping
  have planned (escapesUnicode : Bool) :
      (ofBytes bytes).plan escapesUnicode = (ofText text).plan true :=
    counterpart.plan_eq bytes escapesUnicode
  refine ⟨fun escapes => ⟨?_, ?_⟩, ?_⟩
  · apply observe_congr
    rw [planned, escapes]
  · rw [write_eq_run_plan, write_eq_run_plan, planned, escapes]
  · -- The writers of bytes never look at the flag.
    have same : s.observe (ofBytes bytes) kept = escaping.observe (ofBytes bytes) kept := by
      cases counterpart with
      | short => rfl
      | long => rfl
      | json => rfl
    have ofEscaping : (ofBytes bytes).plan escaping.escapesUnicode =
        (ofText text).plan escaping.escapesUnicode := planned true
    rw [same]
    exact observe_congr ofEscaping kept

/-- A quote, a line feed, DEL and bytes beyond ASCII, on a string with room for some of them and on
one that does not escape. -/
theorem clob_as_widened_string_without_room :
    let bytes : List UInt8 := [0x22, 0x61, 0x0A, 0x7F, 0x80, 0xFF]
    let text := Text.units [0x22, 0x61, 0x0A, 0x7F, 0x80, 0xFF]
    let cut := Sink.characters true (some 7)
    cut.observe (longClob (some bytes)) "" = cut.observe (longString (some text)) "" ∧
      (cut.observe (longClob (some bytes)) "").result = .error .characterTarget ∧
      (Sink.characters false none).observe (jsonClob (some bytes)) "" =
        (Sink.characters true none).observe (jsonString (some text)) "" := by
  intro bytes text cut
  have whole := clob_as_widened_string (Sink.characters false none) "" bytes .json
  exact ⟨((clob_as_widened_string cut "" bytes .long).1 rfl).1, rfl, whole.2⟩

end Rendering

end IonLiteral
