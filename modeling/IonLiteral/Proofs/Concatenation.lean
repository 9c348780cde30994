import IonLiteral.Proofs.Blocks
import IonLiteral.Proofs.IllFormed

/-! # Text in parts

The body of a text that is put together from two is written as one part and then the other, except
that a run may reach across the seam. Positions of unmatched surrogates are counted from the start of
the whole, so those of the second part move by the length of the first. What is refused in the first
part is refused whatever follows, unless its last unit is half of a pair that the second part could
complete.
-/

namespace IonLiteral

/-! ## Decoding in parts -/

/-- The same surrogate in a text with so many units in front. -/
def Unmatched.behind (units : Nat) (found : Unmatched) : Unmatched :=
  { found with index := units + found.index }

namespace Utf16

/-- Positions are counted from where the first unit is said to stand. -/
theorem decodeFrom_add (before index : Nat) (us : List CodeUnit) :
    decodeFrom (before + index) us =
      { decodeFrom index us with
        unmatched := (decodeFrom index us).unmatched.map (Unmatched.behind before) } := by
  induction us using induction_on_characters generalizing index with
  | nil => rfl
  | char c rest ih =>
      rw [decodeFrom_encodeChar, decodeFrom_encodeChar, Nat.add_assoc, ih]
      rfl
  | unpaired half u rest unpaired =>
      rw [decodeFrom_unpaired _ unpaired, decodeFrom_unpaired _ unpaired]
      rfl

/-- Well-formed units in front are decoded by themselves, and decoding goes on behind them. -/
theorem decodeFrom_encode_append (index : Nat) (cs : List Char) (us : List CodeUnit) :
    decodeFrom index (encode cs ++ us) =
      { decodeFrom (index + (encode cs).length) us with
        codePoints :=
          cs.map Char.val ++ (decodeFrom (index + (encode cs).length) us).codePoints } := by
  induction cs generalizing index with
  | nil => rfl
  | cons c cs ih =>
      rw [encode_cons, List.append_assoc, decodeFrom_encodeChar, ih, List.length_append,
        Nat.add_assoc]
      rfl

/-- **Decoding goes on behind a text.** -/
theorem decode_encode_append (cs : List Char) (us : List CodeUnit) :
    decode (encode cs ++ us) =
      ⟨cs.map Char.val ++ (decode us).codePoints,
        (decode us).unmatched.map (Unmatched.behind (encode cs).length)⟩ := by
  rw [decode, decodeFrom_encode_append, Nat.zero_add]
  have shifted := decodeFrom_add (encode cs).length 0 us
  rw [Nat.add_zero] at shifted
  rw [shifted]
  rfl

/-! ## Refusals -/

/-- More text makes no pair of a surrogate that has a unit behind it, or is a second half. -/
theorem Unpaired.append {half : Half} {u : CodeUnit} {rest : List CodeUnit}
    (unpaired : Unpaired half u rest) (more : List CodeUnit)
    (known : half = .high → rest ≠ []) : Unpaired half u (rest ++ more) := by
  cases unpaired with
  | low low => exact .low low
  | high high alone =>
      refine .high high fun trail first => alone trail ?_
      rwa [List.head?_append_of_ne_nil rest (known rfl)] at first

/-- Units break off inside of them. -/
theorem BreaksOff.inside {us : List CodeUnit} {found : Unmatched} (breaks : BreaksOff us found) :
    found.index < us.length :=
  (List.getElem?_eq_some_iff.mp breaks.here).1

/-- Units that break off still do so with others behind them, unless the first of those may complete
a pair. -/
theorem BreaksOff.append {us : List CodeUnit} {found : Unmatched} (breaks : BreaksOff us found)
    (more : List CodeUnit) (known : ¬ (found.half = .high ∧ found.index + 1 = us.length)) :
    BreaksOff (us ++ more) found where
  before := by
    rw [List.take_append_of_le_length (Nat.le_of_lt breaks.inside)]
    exact breaks.before
  here := by
    rw [List.getElem?_append_left breaks.inside]
    exact breaks.here
  unpaired := by
    rw [List.drop_append_of_le_length breaks.inside]
    apply breaks.unpaired.append more
    intro high nothing
    have last : us.length ≤ found.index + 1 := List.drop_eq_nil_iff.mp nothing
    exact known ⟨high, Nat.le_antisymm breaks.inside last⟩

/-- **What is refused stays refused**, with the same characters before it. -/
theorem BreaksOff.decode_append {us : List CodeUnit} {found : Unmatched}
    (breaks : BreaksOff us found) (more : List CodeUnit)
    (known : ¬ (found.half = .high ∧ found.index + 1 = us.length)) :
    decode (us ++ more) = decode us := by
  obtain ⟨cs, beginning, decoded⟩ := breaks.exists_encode
  obtain ⟨ds, whole, decodedWhole⟩ := (breaks.append more known).exists_encode
  rw [List.take_append_of_le_length (Nat.le_of_lt breaks.inside), beginning] at whole
  rw [decoded, decodedWhole, encode_injective whole]

end Utf16

/-! ## Bodies in parts -/

section Bodies

variable {us vs : List CodeUnit}

/-- The characters of well-formed units and of others behind them. -/
theorem Text.characters_append (wellFormed : Utf16.WellFormed us) (vs : List CodeUnit) :
    (Text.units (us ++ vs)).characters =
      (Text.units us).characters ++ (Text.units vs).characters := by
  obtain ⟨cs, rfl⟩ := wellFormed.exists_encode
  have first : (Utf16.decode (Utf16.encode cs)).chars = cs := Utf16.chars_decode_encode cs
  have own : (cs.map Char.val).filterMap CodePoint.toChar? = cs := by
    rw [Utf16.decode, Utf16.decodeFrom_encode] at first
    exact first
  change (Utf16.decode (Utf16.encode cs ++ vs)).chars = (Utf16.decode (Utf16.encode cs)).chars ++ _
  rw [first, Utf16.decode_encode_append]
  unfold Utf16.Decoded.chars
  rw [List.filterMap_append, own]
  rfl

/-- Well-formed units in front move an unmatched surrogate further behind. -/
theorem Text.unmatched_append (wellFormed : Utf16.WellFormed us) (vs : List CodeUnit) :
    (Text.units (us ++ vs)).unmatched =
      (Text.units vs).unmatched.map (Unmatched.behind us.length) := by
  obtain ⟨cs, rfl⟩ := wellFormed.exists_encode
  exact congrArg Utf16.Decoded.unmatched (Utf16.decode_encode_append cs vs)

/-- Units that decode alike are planned alike. -/
theorem Text.batched_congr (same : Utf16.decode us = Utf16.decode vs) (form : Form)
    (escapesUnicode : Bool) :
    (Text.units us).batched form escapesUnicode = (Text.units vs).batched form escapesUnicode := by
  have characters : (units us).characters = (units vs).characters :=
    congrArg Utf16.Decoded.chars same
  have unmatched : (units us).unmatched = (units vs).unmatched :=
    congrArg Utf16.Decoded.unmatched same
  rw [batched, batched, characters, ending, ending, unmatched]

/-- The surrogate that is refused is the one at which the units break off. -/
theorem Utf16.breaksOff_of_ending {found : Unmatched}
    (ends : (Text.units us).ending = .error (.unmatchedSurrogate found)) : BreaksOff us found := by
  apply unmatched_eq_some_iff.mp
  change (Text.units us).unmatched = some found
  unfold Text.ending at ends
  cases stopped : (Text.units us).unmatched with
  | none =>
      rw [stopped] at ends
      cases ends
  | some other =>
      rw [stopped] at ends
      cases ends
      rfl

/-- Batches of a whole are the batches of its parts, joined at the seam. -/
theorem Call.merged_batches {α : Type} {callsOf : α → List Call} {batched : List α → List Call}
    (joins : ∀ as, JoinsTo (as.flatMap callsOf) (batched as)) (as bs : List α) :
    merged (batched (as ++ bs)) = merged (merged (batched as) ++ merged (batched bs)) := by
  rw [(joins (as ++ bs)).merged_eq, List.flatMap_append, merged_append, (joins as).merged_eq,
    (joins bs).merged_eq]

/-- The operations of a body come part by part, but for a run across the seam. -/
theorem Form.merged_bodyCalls_append (form : Form) (escapesUnicode : Bool) (cs ds : List Char) :
    Call.merged (form.bodyCalls escapesUnicode (cs ++ ds)) =
      Call.merged (Call.merged (form.bodyCalls escapesUnicode cs) ++
        Call.merged (form.bodyCalls escapesUnicode ds)) :=
  Call.merged_batches (form.joinsTo_bodyCalls escapesUnicode) cs ds

/-- The operations of bytes come part by part, but for a run across the seam. -/
theorem Form.merged_byteCalls_append (form : Form) (bytes more : List UInt8) :
    Call.merged (form.byteCalls (bytes ++ more)) =
      Call.merged (Call.merged (form.byteCalls bytes) ++ Call.merged (form.byteCalls more)) := by
  have joins (bytes : List UInt8) :
      Call.JoinsTo (bytes.flatMap fun byte => form.charCalls true (Char.ofUInt8 byte))
        (form.byteCalls bytes) := by
    rw [← List.flatMap_map]
    exact form.joinsTo_byteCalls bytes
  exact Call.merged_batches joins bytes more

end Bodies

namespace Rendering

variable {σ : Type} {s : Sink σ}

/-- A body ends as its text does, on a sink that takes all. -/
theorem result_observe_body (takes : s.TakesAll) (text : Text) (form : Form) (kept : σ) :
    (s.observe (body text form) kept).result = text.ending := by
  obtain ⟨left, seen⟩ := Sink.observe_eq_plan takes (body text form) kept
  rw [seen]
  rfl

/-- A body is given all operations of its text, on a sink that takes all. -/
theorem calls_observe_body (takes : s.TakesAll) (text : Text) (form : Form) (kept : σ) :
    (s.observe (body text form) kept).calls =
      form.bodyCalls s.escapesUnicode text.characters := by
  obtain ⟨left, seen⟩ := Sink.observe_eq_plan takes (body text form) kept
  rw [seen]
  rfl

/-- How a text of two parts ends, if the first part is well-formed. -/
theorem ending_append {us : List CodeUnit} (wellFormed : Utf16.WellFormed us)
    (vs : List CodeUnit) :
    ((Text.units (us ++ vs)).ending = .ok () ↔ (Text.units vs).ending = .ok ()) ∧
      ∀ fault, (Text.units vs).ending = .error fault →
        ∃ found : Unmatched, fault = .unmatchedSurrogate found ∧
          (Text.units (us ++ vs)).ending =
            .error (.unmatchedSurrogate (found.behind us.length)) := by
  unfold Text.ending
  rw [Text.unmatched_append wellFormed]
  cases (Text.units vs).unmatched with
  | none => exact ⟨Iff.rfl, nofun⟩
  | some found =>
      refine ⟨iff_of_false nofun nofun, fun fault ends => ⟨found, ?_, rfl⟩⟩
      exact (Except.error.inj ends).symm

/-- **A body is written part by part.** On a sink that takes all it can be asked for, the operations
for a text of two parts, with neighbouring ASCII joined, are those for the parts, joined again; so
are those between the delimiters for bytes. In code units the first part has to be well-formed: then
the whole ends well if the second part does, and otherwise refuses the same surrogate, at a position
counted from the start of the whole. If the first part is refused, and not for a first half at its
very end, then whatever follows the same is asked for, kept and refused. -/
theorem body_part_by_part (takes : s.TakesAll) (form : Form) (kept : σ) :
    let seen text := s.observe (body text form) kept
    let out text := Call.merged (seen text).calls
    (∀ cs ds : List Char, (seen (.chars (cs ++ ds))).result = .ok () ∧
        out (.chars (cs ++ ds)) = Call.merged (out (.chars cs) ++ out (.chars ds))) ∧
      (∀ quoting write, OfBytes quoting write → ∃ inside : List UInt8 → List Call,
        (∀ bytes, (s.observe (write bytes) kept).result = .ok () ∧
          (s.observe (write bytes) kept).calls =
            .ascii quoting.delimiter :: (inside bytes ++ [.ascii quoting.delimiter])) ∧
        ∀ bytes more, Call.merged (inside (bytes ++ more)) =
          Call.merged (Call.merged (inside bytes) ++ Call.merged (inside more))) ∧
      (∀ us vs : List CodeUnit, Utf16.WellFormed us →
        out (.units (us ++ vs)) = Call.merged (out (.units us) ++ out (.units vs)) ∧
          ((seen (.units (us ++ vs))).result = .ok () ↔ (seen (.units vs)).result = .ok ()) ∧
          ∀ fault, (seen (.units vs)).result = .error fault →
            ∃ half u index, fault = .unmatchedSurrogate ⟨half, u, index⟩ ∧
              (seen (.units (us ++ vs))).result =
                .error (.unmatchedSurrogate ⟨half, u, us.length + index⟩)) ∧
      ∀ (us vs : List CodeUnit) (found : Unmatched),
        (seen (.units us)).result = .error (.unmatchedSurrogate found) →
        ¬ (found.half = .high ∧ found.index + 1 = us.length) →
        seen (.units (us ++ vs)) = seen (.units us) := by
  intro seen out
  have result (text : Text) : (seen text).result = text.ending :=
    result_observe_body takes text form kept
  have calls (text : Text) : (seen text).calls = form.bodyCalls s.escapesUnicode text.characters :=
    calls_observe_body takes text form kept
  refine ⟨?_, ?_, ?_, ?_⟩
  · intro cs ds
    refine ⟨result (.chars (cs ++ ds)), ?_⟩
    simp only [out, calls]
    exact form.merged_bodyCalls_append s.escapesUnicode cs ds
  · intro quoting write ofBytes
    refine ⟨quoting.form.byteCalls, fun bytes => ?_, quoting.form.merged_byteCalls_append⟩
    obtain ⟨left, given⟩ := Sink.observe_eq_plan takes (write bytes) kept
    rw [given, ofBytes.plan_eq]
    exact ⟨rfl, rfl⟩
  · intro us vs wellFormed
    obtain ⟨succeeds, fails⟩ := ending_append wellFormed vs
    refine ⟨?_, ?_, ?_⟩
    · simp only [out, calls, Text.characters_append wellFormed]
      exact form.merged_bodyCalls_append s.escapesUnicode _ _
    · rwa [result, result]
    · intro fault ends
      rw [result] at ends
      obtain ⟨⟨half, u, index⟩, refusal, shifted⟩ := fails fault ends
      exact ⟨half, u, index, refusal, (result _).trans shifted⟩
  -- What follows the refused surrogate is not decoded, so both texts have one plan.
  · intro us vs found ends known
    rw [result] at ends
    have breaks := Utf16.breaksOff_of_ending ends
    apply observe_congr
    exact Text.batched_congr (breaks.decode_append vs known) form s.escapesUnicode

/-- A run across the seam in characters and in bytes, a pair that is refused only behind the seam, a
first half that nothing can complete, and one that the second part completes. -/
theorem body_part_by_part_at_seams :
    let s := Sink.units true
    let seen (us : List CodeUnit) := s.observe (body (.units us) .json) #[]
    Call.merged (s.observe (body (.chars ['a', '\n', 'b', 'c']) .json) #[]).calls =
        [.ascii ['a', '\\', 'n', 'b', 'c']] ∧
      (∃ inside : List Call, (s.observe (clob (some ([0x61] ++ [0x62, 0x0A]))) #[]).calls =
          .ascii ['"'] :: (inside ++ [.ascii ['"']]) ∧
        Call.merged inside = [.ascii ['a', 'b', '\\', 'n']]) ∧
      (seen ([0xD83D, 0xDE00] ++ [0x61, 0xDC00])).result =
        .error (.unmatchedSurrogate ⟨.low, 0xDC00, 3⟩) ∧
      seen ([0x61, 0xD83D, 0x62] ++ [0xDE00]) = seen [0x61, 0xD83D, 0x62] ∧
      (seen [0xD83D]).result = .error (.unmatchedSurrogate ⟨.high, 0xD83D, 0⟩) ∧
      (seen ([0xD83D] ++ [0xDE00])).result = .ok () := by
  intro s seen
  have takes : s.TakesAll := Sink.takesAll_units true
  obtain ⟨ofChars, ofBytes, behind, stays⟩ := body_part_by_part takes .json #[]
  obtain ⟨inside, between, joined⟩ := ofBytes .clob _ .clob
  have first : inside [0x61] = [.ascii ['a']] :=
    (List.append_cancel_right (List.cons.inj (between [0x61]).2).2).symm
  have second : inside [0x62, 0x0A] = [.ascii ['b'], .ascii ['\\', 'n']] :=
    (List.append_cancel_right (List.cons.inj (between [0x62, 0x0A]).2).2).symm
  have seam := joined [0x61] [0x62, 0x0A]
  rw [first, second] at seam
  have pair : Utf16.WellFormed [0xD83D, 0xDE00] := .pair rfl rfl .nil
  obtain ⟨half, u, index, refusal, shifted⟩ := (behind _ [0x61, 0xDC00] pair).2.2 _ rfl
  cases refusal
  refine ⟨(ofChars ['a', '\n'] ['b', 'c']).2.trans rfl, ⟨_, (between _).2, seam⟩, shifted, ?_, rfl,
    rfl⟩
  exact stays _ [0xDE00] ⟨.high, 0xD83D, 1⟩ rfl (by decide)

end Rendering

end IonLiteral
