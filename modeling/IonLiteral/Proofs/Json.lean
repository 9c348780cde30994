import IonLiteral.Proofs.Encodings
import IonLiteral.Proofs.Reading
import IonLiteral.Reader.Json

/-! # Strings of JSON are read back

A reader of JSON takes what is written for a character for that character. The number of a
character is never half a surrogate pair, so the only halves there are come in twos: the escapes of
a character beyond `0xFFFF`, which the reader joins again.
-/

namespace IonLiteral

/-! ## Escapes -/

namespace Reader

/-- A letter that names a character in JSON is read as that character. -/
theorem jsonEscape?_named {letter c : Char} (named : jsonNamedChar? letter = some c)
    (rest : List Char) : jsonEscape? (letter :: rest) = some (c, rest) := by
  unfold jsonEscape?
  simp only [named]

/-- Four digits are read as the unit that they were written for. -/
theorem read?_unit (u : CodeUnit) (rest : List Char) :
    Hex.read? 4 (Hex.fixed 4 u.toNat ++ rest) = some (u.toNat, rest) :=
  Hex.read?_fixed (Nat.lt_of_lt_of_eq u.toNat_lt (by decide)) rest

/-- An escape by number is read as what its unit is or begins. -/
theorem jsonEscape?_number (u : CodeUnit) (rest : List Char) :
    jsonEscape? ('u' :: Hex.fixed 4 u.toNat ++ rest) = unitChar? u rest := by
  have unnamed : jsonNamedChar? 'u' = none := rfl
  rw [List.cons_append]
  unfold jsonEscape?
  simp only [unnamed, if_true, read?_unit, bind, Option.bind_some,
    UInt16.ofNat_toNat]

/-- The unit of a character of one unit is read as that character. -/
theorem unitChar?_small {c : Char} (small : c.val < 0x10000) (rest : List Char) :
    unitChar? c.val.toUInt16 rest = some (c, rest) := by
  have noHalf := CodePoint.noHalf_toUInt16 small
  unfold unitChar?
  rw [noHalf.1, if_neg Bool.false_ne_true, CodePoint.toUInt32_toUInt16 small, CodePoint.toChar?_val]
  rfl

/-- The escape of a second half is read as that half. -/
theorem secondHalf?_number {trail : CodeUnit} (low : trail.isLowSurrogate = true)
    (rest : List Char) :
    secondHalf? ('\\' :: 'u' :: Hex.fixed 4 trail.toNat ++ rest) = some (trail, rest) := by
  rw [List.cons_append, List.cons_append]
  unfold secondHalf?
  simp only [read?_unit, bind, Option.bind_some, UInt16.ofNat_toNat, low,
    if_true]
  rfl

/-- A first half with the escape of its second half behind it is read as the character of both. -/
theorem unitChar?_large {c : Char} (large : ¬ c.val < 0x10000) (rest : List Char) :
    unitChar? (Surrogate.split c.val).1
        ('\\' :: 'u' :: Hex.fixed 4 (Surrogate.split c.val).2.toNat ++ rest) =
      some (c, rest) := by
  obtain ⟨high, low, value⟩ := CodePoint.split_isPair large
  unfold unitChar?
  rw [if_pos high, secondHalf?_number low]
  simp only [bind, Option.bind_some, value, CodePoint.toChar?_val]
  rfl

end Reader

/-! ## Marks -/

namespace Reader

/-- The characters that stand behind the backslashes of escapes. -/
def escapeMarks : List Char → List Char
  | '\\' :: mark :: cs => mark :: escapeMarks cs
  | _ :: cs => escapeMarks cs
  | [] => []

/-- The marks that Ion has and JSON has not. -/
def ionMarks : List Char := ['0', 'a', 'v', 'x', 'U', '\'']

/-- Whether a text has no escape of those that only Ion has. -/
def IsJsonMarked (cs : List Char) : Prop :=
  ∀ mark ∈ escapeMarks cs, mark ∉ ionMarks

namespace IsJsonMarked

theorem nil : IsJsonMarked [] := by
  intro mark member
  cases member

/-- A character that is no backslash adds no escape. -/
theorem plain {c : Char} (noEscape : c ≠ '\\') {cs : List Char} (marked : IsJsonMarked cs) :
    IsJsonMarked (c :: cs) := by
  have same : escapeMarks (c :: cs) = escapeMarks cs := by
    rw [escapeMarks.eq_def]
    split
    · rename_i same
      cases same
      exact absurd rfl noEscape
    · rename_i same
      cases same
      rfl
    · rename_i same
      cases same
  unfold IsJsonMarked
  rwa [same]

/-- An escape of JSON adds no escape of Ion. -/
theorem escape {mark : Char} (known : mark ∉ ionMarks) {cs : List Char}
    (marked : IsJsonMarked cs) : IsJsonMarked ('\\' :: mark :: cs) := by
  intro other member
  rcases List.mem_cons.mp member with rfl | member
  · exact known
  · exact marked other member

/-- Digits add no escape. -/
theorem digits (width value : Nat) {cs : List Char} (marked : IsJsonMarked cs) :
    IsJsonMarked (Hex.fixed width value ++ cs) := by
  have noEscape : ∀ n < 16, Nat.digitChar n ≠ '\\' := by decide
  induction width generalizing value cs with
  | zero => exact marked
  | succ width ih =>
      rw [Hex.fixed, List.append_assoc]
      exact ih (value / 16) (plain (noEscape _ (Nat.mod_lt value (by decide))) marked)

end IsJsonMarked

end Reader

/-! ## Characters -/

/-- Letters in JSON name what JSON says they do. -/
theorem Spelling.jsonNamedChar?_of_letter? {c letter : Char}
    (named : letter? .json c = some letter) :
    Reader.jsonNamedChar? letter = some c ∧ letter ∉ Reader.ionMarks := by
  have each : ∀ n < 0x80, ((letter? .json (Char.ofNat n)).all fun letter =>
      decide (Reader.jsonNamedChar? letter = some (Char.ofNat n) ∧ letter ∉ Reader.ionMarks)) =
        true := by
    decide +kernel
  have found := forall_ascii
    (P := fun c => ((letter? .json c).all fun letter =>
      decide (Reader.jsonNamedChar? letter = some c ∧ letter ∉ Reader.ionMarks)) = true) each
    (ascii_of_letter? named)
  rw [named] at found
  exact of_decide_eq_true found

/-- The escape by number of a character of one unit. -/
theorem Spelling.text_byNumber_of_small {c : Char} (small : c.val < 0x10000) :
    (byNumber .json c).flatMap Escape.text =
      '\\' :: 'u' :: Hex.fixed 4 c.val.toUInt16.toNat := by
  have number : byNumber .json c = [.u c.toNat] := by
    unfold byNumber
    rw [if_pos small]
    split <;> rfl
  rw [number, CodePoint.toNat_toUInt16 small]
  exact List.append_nil _

/-- The two escapes by number of a character of two units. -/
theorem Spelling.text_byNumber_of_large {c : Char} (large : ¬ c.val < 0x10000) :
    (byNumber .json c).flatMap Escape.text =
      '\\' :: ('u' :: Hex.fixed 4 (Surrogate.split c.val).1.toNat ++
        '\\' :: 'u' :: Hex.fixed 4 (Surrogate.split c.val).2.toNat) := by
  have number : byNumber .json c =
      [.u (Surrogate.split c.val).1.toNat, .u (Surrogate.split c.val).2.toNat] := by
    have beyond : ¬ c.val < 0x100 := fun latin => large (UInt32.lt_trans latin (by decide))
    unfold byNumber
    rw [if_neg beyond, if_neg large]
    rfl
  rw [number, List.flatMap_cons, List.flatMap_singleton]
  rfl

/-- What is left as it is in JSON is no control character below the space. -/
theorem Spelling.printable_of_json {c : Char} (allowed : isControl .json c = false) :
    0x20 ≤ c.val := by
  refine UInt32.not_lt.mp fun low => ?_
  unfold isControl at allowed
  rw [decide_eq_true low] at allowed
  cases allowed

/-- **Every character is read back from JSON.** No escape is written for it that JSON lacks. -/
theorem Form.charText_json (escapesUnicode : Bool) (c : Char) :
    Reader.Spells Reader.jsonText '"' c (json.charText escapesUnicode c) ∧
      ∀ cs, Reader.IsJsonMarked cs →
        Reader.IsJsonMarked (json.charText escapesUnicode c ++ cs) := by
  have noMark : 'u' ∉ Reader.ionMarks := by decide
  have rule := Spelling.rule_ofChar json escapesUnicode c
  unfold charText
  generalize Spelling.ofChar json escapesUnicode c = spelling at rule
  cases rule with
  | named found =>
      obtain ⟨named, noMark⟩ := Spelling.jsonNamedChar?_of_letter? found
      exact ⟨.escape (Reader.jsonEscape?_named named), fun cs marked => marked.escape noMark⟩
  | number unnamed needed =>
      change Reader.Spells _ _ c ((Spelling.byNumber json c).flatMap Escape.text) ∧
        ∀ cs, _ → Reader.IsJsonMarked ((Spelling.byNumber json c).flatMap Escape.text ++ cs)
      by_cases small : c.val < 0x10000
      · rw [Spelling.text_byNumber_of_small small]
        refine ⟨.escape fun rest => ?_, fun cs marked => (marked.digits 4 _).escape noMark⟩
        exact (Reader.jsonEscape?_number _ rest).trans (Reader.unitChar?_small small rest)
      · rw [Spelling.text_byNumber_of_large small]
        refine ⟨.escape fun rest => ?_, fun cs marked => ?_⟩
        · rw [List.append_assoc]
          exact (Reader.jsonEscape?_number _ _).trans (Reader.unitChar?_large small rest)
        · have second := (marked.digits 4 (Surrogate.split c.val).2.toNat).escape noMark
          have first := (second.digits 4 (Surrogate.split c.val).1.toNat).escape noMark
          rw [List.cons_append, List.append_assoc]
          exact first
  | itself unnamed allowed held =>
      obtain ⟨noEscape, noQuote⟩ := Spelling.ne_of_unnamed unnamed
      have printable := Spelling.printable_of_json allowed
      exact ⟨.plain noEscape noQuote (if_pos printable), fun cs marked => marked.plain noEscape⟩

/-! ## Values -/

/-- What was seen is a string of JSON with the given characters and nothing else, and was written to
the end. -/
structure Observation.IsJsonString {σ : Type} (seen : Observation σ) (cs : List Char) : Prop where
  ends : seen.result = .ok ()
  reads : Reader.jsonString? seen.chars = some (cs, [])
  marks : ∀ mark ∈ Reader.ionMarks, mark ∉ Reader.escapeMarks seen.chars

namespace Rendering

variable {σ : Type} {s : Sink σ}

/-- A quoted value in JSON has no escape of those that only Ion has. -/
theorem isJsonMarked_quoted (escapesUnicode : Bool) (cs : List Char) :
    Reader.IsJsonMarked
      (['"'] ++ (cs.flatMap (Form.json.charText escapesUnicode) ++ ['"'])) := by
  refine Reader.IsJsonMarked.plain (by decide) ?_
  induction cs with
  | nil => exact .plain (by decide) .nil
  | cons c cs ih =>
      rw [List.flatMap_cons, List.append_assoc]
      exact (Form.charText_json escapesUnicode c).2 _ ih

/-- A body that is made of characters as JSON has them is a string of JSON between its quotes. -/
theorem isJsonString_observe (takes : s.TakesAll) {rendering : Rendering} (quoting : Quoting)
    (json : quoting.form = .json) (delimiter : quoting.delimiter = ['"']) {body : Script}
    (planned : rendering.plan s.escapesUnicode = .quoted quoting (some body))
    (ok : body.ending = .ok ()) {escapesUnicode : Bool} {cs : List Char}
    (chars : body.chars = cs.flatMap (Form.json.charText escapesUnicode)) (kept : σ) :
    (s.observe rendering kept).IsJsonString cs := by
  have spells (c : Char) (_ : c ∈ cs) : Reader.Spells Reader.jsonText quoting.form.quote c
      (Form.json.charText escapesUnicode c) := by
    rw [json]
    exact (Form.charText_json escapesUnicode c).1
  have start : quoting.delimiter = quoting.form.quote :: [] := by
    rw [delimiter, json]
    rfl
  obtain ⟨ends, reads⟩ := takes.observe_reads_back quoting planned ok start chars spells kept []
  have seen := (Sink.observe_quoted takes planned ok kept).2
  refine ⟨ends, ?_, ?_⟩
  · rwa [List.append_nil, List.map_id', delimiter] at reads
  · intro mark known among
    rw [seen, chars, delimiter] at among
    exact isJsonMarked_quoted escapesUnicode cs mark among known

/-- **Strings of JSON are read back.** A text and the bytes of a clob are written to the end as one
string of JSON, of the characters of the text or the characters with the numbers of the bytes, and
without any escape that only Ion has. -/
theorem json_reads_back (takes : s.TakesAll) (kept : σ) :
    (∀ text : Text, text.WellFormed →
      (s.observe (jsonString (some text)) kept).IsJsonString text.characters) ∧
      ∀ bytes : List UInt8,
        (s.observe (jsonClob (some bytes)) kept).IsJsonString (bytes.map Char.ofUInt8) := by
  refine ⟨fun text wellFormed => ?_, fun bytes => ?_⟩
  · exact isJsonString_observe takes .json rfl rfl rfl wellFormed.ending
      (text.chars_batched .json s.escapesUnicode) kept
  · exact isJsonString_observe takes .jsonClob rfl rfl rfl rfl (Form.json.chars_byteScript bytes)
      kept

/-- A surrogate pair next to a character with a number of its own, for a sink that escapes. -/
theorem json_reads_back_at_pair :
    ((Sink.characters true none).observe
        (jsonString (some (.units [0xD83D, 0xDE00, 0xE000, 0x00, 0x38]))) "").IsJsonString
      [.ofNat 0x1F600, .ofNat 0xE000, '\x00', '8'] :=
  (json_reads_back (Sink.takesAll_characters true) "").1 _
    (.pair rfl rfl (.unit rfl (.unit rfl (.unit rfl .nil))))

end Rendering

end IonLiteral
