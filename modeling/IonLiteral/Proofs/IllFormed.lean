import IonLiteral.Proofs.Encodings
import IonLiteral.Proofs.Kinds
import Mathlib.Order.Bounds.Defs

/-! # Ill-formed text

Code units that are no UTF-16 have a first place where they break off: what stands before it is
well-formed, and the unit there is a surrogate without its partner. Every writer of text writes what
stands before that place and refuses the unit there, by its half, its value and its position. A
value that was opened stays open.
-/

namespace IonLiteral

/-! ## Where units break off -/

namespace Utf16

/-- Units break off at a surrogate without its partner, behind units that are well-formed. -/
structure BreaksOff (us : List CodeUnit) (found : Unmatched) : Prop where
  before : WellFormed (us.take found.index)
  here : us[found.index]? = some found.unit
  unpaired : Unpaired found.half found.unit (us.drop (found.index + 1))

/-- Decoding reads the characters before a surrogate without its partner, and stops there. -/
theorem decodeFrom_encode_unpaired (index : Nat) (cs : List Char) {half : Half} {u : CodeUnit}
    {rest : List CodeUnit} (unpaired : Unpaired half u rest) :
    decodeFrom index (encode cs ++ u :: rest) =
      ⟨cs.map Char.val, some ⟨half, u, index + (encode cs).length⟩⟩ := by
  induction cs generalizing index with
  | nil => exact decodeFrom_unpaired index unpaired
  | cons c cs ih =>
      rw [encode_cons, List.append_assoc, decodeFrom_encodeChar, ih, List.length_append,
        Nat.add_assoc]
      rfl

/-- Units are the encoding of characters, as a whole or up to an unpaired surrogate. -/
theorem eq_encode_or_unpaired (us : List CodeUnit) :
    (∃ cs, us = encode cs) ∨
      ∃ cs half u rest, us = encode cs ++ u :: rest ∧ Unpaired half u rest := by
  induction us using induction_on_characters with
  | nil => exact .inl ⟨[], rfl⟩
  | char c rest ih =>
      rcases ih with ⟨cs, rfl⟩ | ⟨cs, half, u, others, rfl, unpaired⟩
      · exact .inl ⟨c :: cs, rfl⟩
      · refine .inr ⟨c :: cs, half, u, others, ?_, unpaired⟩
        rw [encode_cons, List.append_assoc]
  | unpaired half u rest unpaired => exact .inr ⟨[], half, u, rest, rfl, unpaired⟩

/-- What stands before the place where units break off is a text, and all that is decoded. -/
theorem BreaksOff.exists_encode {us : List CodeUnit} {found : Unmatched}
    (breaks : BreaksOff us found) :
    ∃ cs, us.take found.index = encode cs ∧ decode us = ⟨cs.map Char.val, some found⟩ := by
  obtain ⟨cs, beginning⟩ := breaks.before.exists_encode
  obtain ⟨inside, here⟩ := List.getElem?_eq_some_iff.mp breaks.here
  have size : (encode cs).length = found.index := by
    rw [← beginning, List.length_take_of_le (Nat.le_of_lt inside)]
  have whole : us = encode cs ++ found.unit :: us.drop (found.index + 1) := by
    rw [← beginning, ← here, ← List.drop_eq_getElem_cons inside, List.take_append_drop]
  refine ⟨cs, beginning, ?_⟩
  rw [decode, whole, decodeFrom_encode_unpaired 0 cs breaks.unpaired, size, Nat.zero_add]

/-- Units break off behind a text where a surrogate has no partner. -/
theorem breaksOff_encode_append (cs : List Char) {half : Half} {u : CodeUnit}
    {rest : List CodeUnit} (unpaired : Unpaired half u rest) :
    BreaksOff (encode cs ++ u :: rest) ⟨half, u, (encode cs).length⟩ where
  before := by
    rw [List.take_left]
    exact wellFormed_encode cs
  here := by
    rw [← List.head?_drop, List.drop_left]
    rfl
  unpaired := by
    rw [List.drop_length_add_append]
    exact unpaired

/-- **Decoding stops where units break off.** -/
theorem unmatched_eq_some_iff {us : List CodeUnit} {found : Unmatched} :
    (decode us).unmatched = some found ↔ BreaksOff us found := by
  constructor
  · intro stopped
    rcases eq_encode_or_unpaired us with ⟨cs, rfl⟩ | ⟨cs, half, u, rest, rfl, unpaired⟩
    · rw [decode, decodeFrom_encode] at stopped
      cases stopped
    · rw [decode, decodeFrom_encode_unpaired 0 cs unpaired, Nat.zero_add] at stopped
      cases stopped
      exact breaksOff_encode_append cs unpaired
  · intro breaks
    obtain ⟨cs, _, decoded⟩ := breaks.exists_encode
    rw [decoded]

/-- Decoding comes to the end exactly of well-formed units. -/
theorem unmatched_eq_none_iff {us : List CodeUnit} :
    (decode us).unmatched = none ↔ WellFormed us := by
  constructor
  · intro whole
    rcases eq_encode_or_unpaired us with ⟨cs, rfl⟩ | ⟨cs, half, u, rest, rfl, unpaired⟩
    · exact wellFormed_encode cs
    · rw [decode, decodeFrom_encode_unpaired 0 cs unpaired] at whole
      cases whole
  · intro wellFormed
    obtain ⟨cs, rfl⟩ := wellFormed.exists_encode
    rw [decode, decodeFrom_encode]

/-- Units break off at one place at most. -/
theorem BreaksOff.eq {us : List CodeUnit} {found other : Unmatched} (breaks : BreaksOff us found)
    (breaksOther : BreaksOff us other) : other = found := by
  have stopped := unmatched_eq_some_iff.mpr breaksOther
  rw [unmatched_eq_some_iff.mpr breaks] at stopped
  exact (Option.some.inj stopped).symm

/-- Units break off at the first place where they can. -/
theorem BreaksOff.isLeast {us : List CodeUnit} {found : Unmatched} (breaks : BreaksOff us found) :
    IsLeast {index | ∃ half u, BreaksOff us ⟨half, u, index⟩} found.index := by
  refine ⟨⟨found.half, found.unit, breaks⟩, ?_⟩
  rintro index ⟨half, u, breaksOther⟩
  exact Nat.le_of_eq (congrArg Unmatched.index (breaks.eq breaksOther)).symm

end Utf16

/-! ## Plans for ill-formed text -/

section Plans

variable {us : List CodeUnit} {found : Unmatched}

/-- A text is refused for the surrogate at which it breaks off. -/
theorem Utf16.BreaksOff.ending (breaks : BreaksOff us found) :
    (Text.units us).ending = .error (.unmatchedSurrogate found) := by
  have stopped : (Text.units us).unmatched = some found := unmatched_eq_some_iff.mpr breaks
  unfold Text.ending
  rw [stopped]

/-- A text is written to the end exactly if it is well-formed. -/
theorem Text.ending_units_eq_ok_iff : (Text.units us).ending = .ok () ↔ Utf16.WellFormed us := by
  have same : (Text.units us).unmatched = (Utf16.decode us).unmatched := rfl
  rw [← Utf16.unmatched_eq_none_iff]
  unfold ending
  rw [same]
  cases (Utf16.decode us).unmatched with
  | none => exact iff_of_true rfl rfl
  | some found => exact iff_of_false nofun nofun

/-- The characters of a text that breaks off are those before that place. -/
theorem Utf16.BreaksOff.characters_take (breaks : BreaksOff us found) :
    (Text.units (us.take found.index)).characters = (Text.units us).characters := by
  obtain ⟨cs, beginning, decoded⟩ := breaks.exists_encode
  have same : (decode us).chars = (decode (us.take found.index)).chars := by
    rw [beginning, decoded, decode, decodeFrom_encode]
    rfl
  exact same.symm

/-- Where units break off stands a surrogate, which is part of no identifier and no operator. -/
theorem Utf16.BreaksOff.needsQuotes (breaks : BreaksOff us found) (quoteOperators : Bool) :
    Symbol.needsQuotes (.units us) quoteOperators = .ok true := by
  have bounds := CodeUnit.isSurrogate_iff.mp breaks.unpaired.isSurrogate
  have large : ¬ found.unit.toUInt32 < 0x80 := fun small => by
    have bound : found.unit.toUInt32.toNat < 0x80 := UInt32.lt_iff_toNat_lt.mp small
    rw [UInt16.toNat_toUInt32] at bound
    omega
  have kind : Symbol.kind (.units us) = .ok .quoted :=
    Symbol.kindOfUnits_of_stranger (List.mem_of_getElem? breaks.here)
      (Lexical.isAscii_isIdentifierPart.eq_false large)
      (Lexical.isAscii_isOperatorPart.eq_false large)
  unfold Symbol.needsQuotes
  rw [kind]

/-- A body that fails is not followed by its delimiter. -/
theorem Script.quoted_of_error (quoting : Quoting) {body : Script} {fault : Fault}
    (stops : body.ending = .error fault) :
    Script.quoted quoting (some body) =
      ⟨.ascii quoting.delimiter :: body.calls, .error fault⟩ := by
  obtain ⟨calls, ending⟩ := body
  cases stops
  rfl

end Plans

namespace Rendering

/-- The ways to write a text by itself. -/
inductive Undelimited (form : Form) : (Text → Rendering) → Prop
  | batched : Undelimited form (body · form)
  | oneByOne : Undelimited form (oneByOne form)

/-- The ways to write a text between delimiters. A symbol has them if it needs them. -/
inductive Delimited : Quoting → (Text → Rendering) → Prop
  | string : Delimited .string fun text => string (some text)
  | longString : Delimited .longString fun text => longString (some text)
  | jsonString : Delimited .json fun text => jsonString (some text)
  | quotedSymbol : Delimited .symbol fun text => quotedSymbol (some text)
  | symbol (quoteOperators : Bool) : Delimited .symbol fun text => symbol (some text) quoteOperators

/-- A text by itself ends as its units say. -/
theorem Undelimited.ending_plan {form : Form} {write : Text → Rendering}
    (undelimited : Undelimited form write) (text : Text) (escapesUnicode : Bool) :
    ((write text).plan escapesUnicode).ending = text.ending := by
  cases undelimited with
  | batched => rfl
  | oneByOne => cases text <;> rfl

/-- What is asked for depends on the characters of the text only. -/
theorem Undelimited.calls_plan_congr {form : Form} {write : Text → Rendering}
    (undelimited : Undelimited form write) {us vs : List CodeUnit}
    (same : (Text.units us).characters = (Text.units vs).characters) (escapesUnicode : Bool) :
    ((write (.units us)).plan escapesUnicode).calls =
      ((write (.units vs)).plan escapesUnicode).calls := by
  cases undelimited with
  | batched => exact congrArg (form.bodyCalls escapesUnicode) same
  | oneByOne => exact congrArg (List.flatMap (form.charCalls escapesUnicode)) same

/-- A text that breaks off is planned behind an open delimiter, up to that place. -/
theorem Delimited.plan_of_breaksOff {quoting : Quoting} {write : Text → Rendering}
    (delimited : Delimited quoting write) {us : List CodeUnit} {found : Unmatched}
    (breaks : Utf16.BreaksOff us found) (escapesUnicode : Bool) :
    (write (.units us)).plan escapesUnicode =
      ⟨.ascii quoting.delimiter :: quoting.form.bodyCalls escapesUnicode (Text.units us).characters,
        .error (.unmatchedSurrogate found)⟩ := by
  have opened (quoting : Quoting) :
      Script.quoted quoting (some ((Text.units us).batched quoting.form escapesUnicode)) =
        ⟨.ascii quoting.delimiter ::
            quoting.form.bodyCalls escapesUnicode (Text.units us).characters,
          .error (.unmatchedSurrogate found)⟩ :=
    Script.quoted_of_error quoting breaks.ending
  cases delimited with
  | string => exact opened .string
  | longString => exact opened .longString
  | jsonString => exact opened .json
  | quotedSymbol =>
      have notEmpty : us.isEmpty = false :=
        List.isEmpty_eq_false_iff.mpr (List.ne_nil_of_mem (List.mem_of_getElem? breaks.here))
      rw [plan, Option.any_some, Text.isEmpty, notEmpty]
      exact opened .symbol
  | symbol quoteOperators =>
      rw [plan, Text.symbolScript, breaks.needsQuotes quoteOperators]
      exact opened .symbol

variable {σ : Type} {s : Sink σ}

/-- **Text is refused where it breaks off.** On a sink that takes all it can be asked for, a text in
code units is written to the end exactly if it is well-formed. If it is not there is a first place
where it breaks off. All that was asked of the sink is then what the text before that place asks
for, behind the opening delimiter if there is one and without a closing one, and the fault names the
half, the unit and the position. -/
theorem refused_where_broken_off (takes : s.TakesAll) (us : List CodeUnit) (kept : σ) :
    (∀ form write, Undelimited form write →
      ((s.observe (write (.units us)) kept).result = .ok () ↔ Utf16.WellFormed us)) ∧
      (¬ Utf16.WellFormed us → ∃ found : Unmatched,
        Utf16.BreaksOff us found ∧
          IsLeast {index | ∃ half u, Utf16.BreaksOff us ⟨half, u, index⟩} found.index ∧
          (∀ form write, Undelimited form write →
            s.observe (write (.units us)) kept =
              { s.observe (write (.units (us.take found.index))) kept with
                result := .error (.unmatchedSurrogate found) }) ∧
          ∀ quoting write, Delimited quoting write → ∃ opened,
            s.putAscii quoting.delimiter kept = .ok () opened ∧
              let before := s.observe (body (.units (us.take found.index)) quoting.form) opened
              s.observe (write (.units us)) kept =
                ⟨.error (.unmatchedSurrogate found), .ascii quoting.delimiter :: before.calls,
                  before.kept⟩) := by
  refine ⟨fun form write undelimited => ?_, fun illFormed => ?_⟩
  · obtain ⟨left, seen⟩ := Sink.observe_eq_plan takes (write (.units us)) kept
    rw [seen, undelimited.ending_plan]
    exact Text.ending_units_eq_ok_iff
  · rw [← Utf16.unmatched_eq_none_iff] at illFormed
    obtain ⟨found, stopped⟩ := Option.ne_none_iff_exists'.mp illFormed
    have breaks := Utf16.unmatched_eq_some_iff.mp stopped
    refine ⟨found, breaks, breaks.isLeast, fun form write undelimited => ?_,
      fun quoting write delimited => ?_⟩
    · obtain ⟨left, taken⟩ :=
        takes.takes ((write (.units us)).isProper_plan s.escapesUnicode) kept
      have calls := undelimited.calls_plan_congr breaks.characters_take s.escapesUnicode
      have takenBefore := taken
      rw [← calls] at takenBefore
      rw [taken.observe_eq_plan, takenBefore.observe_eq_plan, undelimited.ending_plan,
        breaks.ending, calls]
    · have planned := delimited.plan_of_breaksOff breaks s.escapesUnicode
      obtain ⟨left, taken⟩ :=
        takes.takes ((write (.units us)).isProper_plan s.escapesUnicode) kept
      have seen := taken.observe_eq_plan
      rw [planned] at taken seen
      cases taken with
      | @cons _ opened _ _ _ first rest =>
          -- What is taken behind the delimiter is the plan for the text before the break.
          rw [← breaks.characters_take] at rest
          have before :
              s.observe (body (.units (us.take found.index)) quoting.form) opened =
                ⟨_, _, left⟩ :=
            Sink.Takes.observe_eq_plan rest
          refine ⟨opened, first, ?_⟩
          rw [seen, before, ← breaks.characters_take]
          rfl

/-- A pair and then two high halves in a row, in a long string. -/
theorem refused_where_broken_off_behind_pair :
    let us : List CodeUnit := [0x61, 0xD83D, 0xDE00, 0xD83D, 0xD83D, 0xDE00]
    let found : Unmatched := ⟨.high, 0xD83D, 3⟩
    let seen := (Sink.characters false none).observe (longString (some (.units us))) ""
    ¬ Utf16.WellFormed us ∧ Utf16.BreaksOff us found ∧
      IsLeast {index | ∃ half u, Utf16.BreaksOff us ⟨half, u, index⟩} 3 ∧
      seen.result = .error (.unmatchedSurrogate found) ∧ seen.kept = "'''a😀" := by
  intro us found seen
  have illFormed : ¬ Utf16.WellFormed us := fun wellFormed =>
    nomatch Utf16.unmatched_eq_none_iff.mpr wellFormed
  have breaks : Utf16.BreaksOff us found := Utf16.unmatched_eq_some_iff.mp rfl
  obtain ⟨other, breaksOther, least, _, opened⟩ :=
    (refused_where_broken_off (Sink.takesAll_characters false) us "").2 illFormed
  cases breaks.eq breaksOther
  obtain ⟨_, delimited, ends⟩ := opened _ _ .longString
  exact ⟨illFormed, breaks, least, congrArg Observation.result ends, rfl⟩

end Rendering

end IonLiteral
