import IonLiteral.Text

/-! # Characters and code units

A character of one unit is that unit, and a character of two units is what its surrogate pair stands
for. Decoding reads off characters one by one and stops at the first surrogate without its partner;
a well-formed text is the encoding of its characters, which decoding gives back.
-/

namespace IonLiteral

/-! ## Single characters -/

/-- What holds of the first `0x80` characters holds of every ASCII character. -/
theorem forall_ascii {P : Char → Prop} (each : ∀ n < 0x80, P (Char.ofNat n)) {c : Char}
    (ascii : c.val < 0x80) : P c := by
  have found := each c.toNat (UInt32.lt_iff_toNat_lt.mp ascii)
  rwa [Char.ofNat_toNat] at found

namespace CodePoint

theorem toNat_lt (c : Char) : c.val.toNat < 0x110000 := by
  have valid : c.val.toNat.isValidChar := c.valid
  unfold Nat.isValidChar at valid
  omega

theorem small_iff {c : Char} : c.val < 0x10000 ↔ c.val.toNat < 0x10000 :=
  UInt32.lt_iff_toNat_lt

theorem toNat_toUInt16 {c : Char} (small : c.val < 0x10000) :
    c.val.toUInt16.toNat = c.val.toNat := by
  have bound := small_iff.mp small
  rw [UInt32.toNat_toUInt16]
  omega

/-- A character of one unit and its unit are one number. -/
theorem toUInt32_toUInt16 {c : Char} (small : c.val < 0x10000) :
    c.val.toUInt16.toUInt32 = c.val := by
  apply UInt32.toNat_inj.mp
  rw [UInt16.toNat_toUInt32, toNat_toUInt16 small]

/-- Bounds on a character of one unit are bounds on its unit. -/
theorem toUInt16_lt_iff {c : Char} (small : c.val < 0x10000) {bound : Nat}
    (fits : bound < 0x10000) :
    c.val.toUInt16 < UInt16.ofNat bound ↔ c.val < UInt32.ofNat bound := by
  rw [UInt16.lt_iff_toNat_lt, UInt32.lt_iff_toNat_lt, toNat_toUInt16 small, UInt16.toNat_ofNat',
    UInt32.toNat_ofNat']
  omega

/-- A character below `0x100` is the character of its byte. -/
theorem ofUInt8_toUInt8 {c : Char} (latin : c.val < 0x100) : Char.ofUInt8 c.val.toUInt8 = c := by
  have bound : c.val.toNat < 0x100 := UInt32.lt_iff_toNat_lt.mp latin
  apply Char.ext
  apply UInt32.toNat_inj.mp
  change c.val.toUInt8.toUInt32.toNat = c.val.toNat
  rw [UInt8.toNat_toUInt32, UInt32.toNat_toUInt8]
  omega

theorem ofUInt8_latin (byte : UInt8) : (Char.ofUInt8 byte).val < 0x100 := by
  apply UInt32.lt_iff_toNat_lt.mpr
  change byte.toUInt32.toNat < 0x100
  rw [UInt8.toNat_toUInt32]
  exact byte.toNat_lt

/-- The character of a byte has the number of that byte. -/
theorem toUInt8_ofUInt8 (byte : UInt8) : (Char.ofUInt8 byte).val.toUInt8 = byte :=
  UInt8.toUInt8_toUInt32 byte

/-- The unit of a character is no surrogate. -/
theorem isSurrogate_toUInt16 {c : Char} (small : c.val < 0x10000) :
    CodeUnit.isSurrogate c.val.toUInt16 = false := by
  have bound := small_iff.mp small
  have valid : c.val.toNat.isValidChar := c.valid
  refine Bool.eq_false_iff.mpr fun surrogate => ?_
  have within := CodeUnit.isSurrogate_iff.mp surrogate
  rw [UInt32.toNat_toUInt16] at within
  unfold Nat.isValidChar at valid
  omega

/-- A unit that is no surrogate is a character. -/
theorem exists_char_of_unit {u : CodeUnit} (plain : u.isSurrogate = false) :
    ∃ c : Char, c.val = u.toUInt32 ∧ c.val < 0x10000 ∧ c.val.toUInt16 = u := by
  have bound := u.toNat_lt
  have outside : ¬ (0xD800 ≤ u.toNat ∧ u.toNat ≤ 0xDFFF) := fun within =>
    Bool.eq_false_iff.mp plain (CodeUnit.isSurrogate_iff.mpr within)
  have valid : u.toUInt32.isValidChar := by
    change u.toUInt32.toNat.isValidChar
    rw [UInt16.toNat_toUInt32]
    unfold Nat.isValidChar
    omega
  refine ⟨⟨u.toUInt32, valid⟩, rfl, ?_, ?_⟩
  · apply UInt32.lt_iff_toNat_lt.mpr
    rw [UInt16.toNat_toUInt32]
    exact bound
  · apply UInt16.toNat_inj.mp
    rw [UInt32.toNat_toUInt16, UInt16.toNat_toUInt32]
    omega

/-- A surrogate pair is a character, of which it is the pair. -/
theorem exists_char_of_pair {lead trail : CodeUnit} (high : lead.isHighSurrogate = true)
    (low : trail.isLowSurrogate = true) :
    ∃ c : Char, c.val = Surrogate.combine lead trail ∧ ¬ c.val < 0x10000 ∧
      Surrogate.split c.val = (lead, trail) := by
  have value := Surrogate.toNat_combine high low
  have leadBounds := CodeUnit.isHighSurrogate_iff.mp high
  have trailBounds := CodeUnit.isLowSurrogate_iff.mp low
  have valid : (Surrogate.combine lead trail).isValidChar := by
    change (Surrogate.combine lead trail).toNat.isValidChar
    unfold Nat.isValidChar
    omega
  refine ⟨⟨Surrogate.combine lead trail, valid⟩, rfl, ?_, Surrogate.split_combine high low⟩
  intro small
  have bound : (Surrogate.combine lead trail).toNat < 0x10000 := UInt32.lt_iff_toNat_lt.mp small
  omega

/-- A character beyond `0xFFFF` has a surrogate pair, which stands for it. -/
theorem split_isPair {c : Char} (large : ¬ c.val < 0x10000) :
    (Surrogate.split c.val).1.isHighSurrogate = true ∧
      (Surrogate.split c.val).2.isLowSurrogate = true ∧
      Surrogate.combine (Surrogate.split c.val).1 (Surrogate.split c.val).2 = c.val := by
  have above : 0x10000 ≤ c.val.toNat := Nat.le_of_not_lt fun below => large (small_iff.mpr below)
  exact ⟨Surrogate.isHighSurrogate_split above (toNat_lt c),
    Surrogate.isLowSurrogate_split above (toNat_lt c), Surrogate.combine_split above (toNat_lt c)⟩

end CodePoint

namespace CodeUnit

theorem isLowSurrogate_of_isHighSurrogate {u : CodeUnit} (high : u.isHighSurrogate = true) :
    u.isLowSurrogate = false := by
  have bounds := isHighSurrogate_iff.mp high
  refine Bool.eq_false_iff.mpr fun low => ?_
  have := isLowSurrogate_iff.mp low
  omega

theorem isHighSurrogate_of_isLowSurrogate {u : CodeUnit} (low : u.isLowSurrogate = true) :
    u.isHighSurrogate = false :=
  Bool.eq_false_iff.mpr fun high =>
    Bool.eq_false_iff.mp (isLowSurrogate_of_isHighSurrogate high) low

theorem isSurrogate_eq (u : CodeUnit) :
    u.isSurrogate = (u.isHighSurrogate || u.isLowSurrogate) := by
  apply Bool.eq_iff_iff.mpr
  rw [Bool.or_eq_true, isSurrogate_iff, isHighSurrogate_iff, isLowSurrogate_iff]
  omega

end CodeUnit

/-- The unit of a character of one unit is neither half of a pair. -/
theorem CodePoint.noHalf_toUInt16 {c : Char} (small : c.val < 0x10000) :
    CodeUnit.isHighSurrogate c.val.toUInt16 = false ∧
      CodeUnit.isLowSurrogate c.val.toUInt16 = false := by
  have noHalf := isSurrogate_toUInt16 small
  rwa [CodeUnit.isSurrogate_eq, Bool.or_eq_false_iff] at noHalf

/-! ## Texts -/

namespace Utf16

theorem encodeChar_small {c : Char} (small : c.val < 0x10000) :
    encodeChar c = [c.val.toUInt16] :=
  if_pos small

theorem encodeChar_large {c : Char} (large : ¬ c.val < 0x10000) :
    encodeChar c = [(Surrogate.split c.val).1, (Surrogate.split c.val).2] :=
  if_neg large

/-- The characters among the code points. -/
def Decoded.chars (d : Decoded) : List Char :=
  d.codePoints.filterMap CodePoint.toChar?

theorem Decoded.chars_cons (c : Char) (d : Decoded) : (d.cons c.val).chars = c :: d.chars := by
  unfold chars cons
  rw [List.filterMap_cons, CodePoint.toChar?_val]

/-- A surrogate that is not paired with what follows it. -/
inductive Unpaired : Half → CodeUnit → List CodeUnit → Prop
  | high {u : CodeUnit} {rest : List CodeUnit} (high : u.isHighSurrogate = true)
      (alone : ∀ trail ∈ rest.head?, trail.isLowSurrogate = false) : Unpaired .high u rest
  | low {u : CodeUnit} {rest : List CodeUnit} (low : u.isLowSurrogate = true) : Unpaired .low u rest

/-- What has no partner is a surrogate. -/
theorem Unpaired.isSurrogate {half : Half} {u : CodeUnit} {rest : List CodeUnit}
    (unpaired : Unpaired half u rest) : u.isSurrogate = true := by
  rw [CodeUnit.isSurrogate_eq, Bool.or_eq_true]
  cases unpaired with
  | high high alone => exact .inl high
  | low low => exact .inr low

/-- Behind a first half without its partner stands no second half. -/
theorem Unpaired.filter_head? {u : CodeUnit} {rest : List CodeUnit}
    (unpaired : Unpaired .high u rest) : rest.head?.filter CodeUnit.isLowSurrogate = none := by
  cases unpaired with
  | high high alone =>
      exact Option.filter_eq_none_iff.mpr fun trail first =>
        Bool.eq_false_iff.mp (alone trail first)

/-- **Units are characters until one of them is unpaired.** What holds of no units, carries over
from units to the same units behind a character, and holds from an unpaired surrogate on, holds of
all units. -/
theorem induction_on_characters {motive : List CodeUnit → Prop} (nil : motive [])
    (char : ∀ c rest, motive rest → motive (encodeChar c ++ rest))
    (unpaired : ∀ half u rest, Unpaired half u rest → motive (u :: rest)) (us : List CodeUnit) :
    motive us := by
  have start (index : Nat) : motive us := by
    fun_induction decodeFrom index us with
    | case1 => exact nil
    | case2 index u high => exact unpaired _ _ _ (.high high (by simp))
    | case3 index lead high trail rest low ih =>
        obtain ⟨c, _, large, halves⟩ := CodePoint.exists_char_of_pair high low
        have behind := char c rest ih
        rwa [encodeChar_large large, halves] at behind
    | case4 index lead high next rest notLow =>
        refine unpaired _ _ _ (.high high fun trail first => ?_)
        cases first
        exact Bool.eq_false_iff.mpr notLow
    | case5 index u rest notHigh low => exact unpaired _ _ _ (.low low)
    | case6 index u rest notHigh notLow ih =>
        have plain : u.isSurrogate = false := by
          rw [CodeUnit.isSurrogate_eq, Bool.or_eq_false_iff]
          exact ⟨Bool.eq_false_iff.mpr notHigh, Bool.eq_false_iff.mpr notLow⟩
        obtain ⟨c, _, small, unit⟩ := CodePoint.exists_char_of_unit plain
        have behind := char c rest ih
        rwa [encodeChar_small small, unit] at behind
  exact start 0

/-- Decoding stops at a surrogate without its partner. -/
theorem decodeFrom_unpaired (index : Nat) {half : Half} {u : CodeUnit} {rest : List CodeUnit}
    (unpaired : Unpaired half u rest) :
    decodeFrom index (u :: rest) = ⟨[], some ⟨half, u, index⟩⟩ := by
  rw [decodeFrom.eq_def]
  cases unpaired with
  | high high alone =>
      simp only [high, if_true]
      cases rest with
      | nil => rfl
      | cons trail rest => simp only [alone trail rfl, Bool.false_eq_true, if_false]
  | low low =>
      have notHigh := CodeUnit.isHighSurrogate_of_isLowSurrogate low
      simp only [notHigh, low, Bool.false_eq_true, if_false, if_true]

/-- Decoding reads a character and goes on behind its units. -/
theorem decodeFrom_encodeChar (index : Nat) (c : Char) (us : List CodeUnit) :
    decodeFrom index (encodeChar c ++ us) =
      (decodeFrom (index + (encodeChar c).length) us).cons c.val := by
  -- One unit that is no half, or a high half with the low one right behind it.
  by_cases small : c.val < 0x10000
  · have plain := CodePoint.noHalf_toUInt16 small
    rw [encodeChar_small small, List.singleton_append]
    rw [decodeFrom.eq_def]
    simp only [plain.1, plain.2, Bool.false_eq_true, if_false, CodePoint.toUInt32_toUInt16 small]
    rfl
  · obtain ⟨high, low, value⟩ := CodePoint.split_isPair small
    rw [encodeChar_large small, List.cons_append, List.singleton_append]
    simp only [decodeFrom, if_pos high, if_pos low, value]
    rfl

/-- All code points that decoding yields have characters. -/
theorem codePoints_decodeFrom (index : Nat) (us : List CodeUnit) :
    (decodeFrom index us).codePoints = (decodeFrom index us).chars.map Char.val := by
  induction us using induction_on_characters generalizing index with
  | nil => rfl
  | char c rest ih =>
      rw [decodeFrom_encodeChar, Decoded.chars_cons, List.map_cons, ← ih]
      rfl
  | unpaired half u rest unpaired =>
      rw [decodeFrom_unpaired index unpaired]
      rfl

/-- **Decoding gives back what was encoded.** -/
theorem decodeFrom_encode (index : Nat) (cs : List Char) :
    decodeFrom index (encode cs) = ⟨cs.map Char.val, none⟩ := by
  induction cs generalizing index with
  | nil => rfl
  | cons c cs ih =>
      rw [encode_cons, decodeFrom_encodeChar, ih]
      rfl

/-- Characters are decoded from their units. -/
theorem chars_decode_encode (cs : List Char) : (decode (encode cs)).chars = cs := by
  unfold decode
  rw [decodeFrom_encode]
  unfold Decoded.chars
  induction cs with
  | nil => rfl
  | cons c cs ih =>
      rw [List.map_cons, List.filterMap_cons, CodePoint.toChar?_val]
      exact congrArg (c :: ·) ih

/-- Different texts have different units. -/
theorem encode_injective {cs ds : List Char} (same : encode cs = encode ds) : cs = ds := by
  rw [← chars_decode_encode cs, same, chars_decode_encode]

/-- The units of a text are well-formed. -/
theorem wellFormed_encode (cs : List Char) : WellFormed (encode cs) := by
  induction cs with
  | nil => exact .nil
  | cons c cs ih =>
      rw [encode_cons]
      by_cases small : c.val < 0x10000
      · rw [encodeChar_small small]
        exact .unit (CodePoint.isSurrogate_toUInt16 small) ih
      · obtain ⟨high, low, _⟩ := CodePoint.split_isPair small
        rw [encodeChar_large small]
        exact .pair high low ih

/-- Well-formed units are those of a text. -/
theorem WellFormed.exists_encode {us : List CodeUnit} (wellFormed : WellFormed us) :
    ∃ cs, us = encode cs := by
  induction wellFormed with
  | nil => exact ⟨[], rfl⟩
  | unit plain tail ih =>
      obtain ⟨cs, rfl⟩ := ih
      obtain ⟨c, _, small, unit⟩ := CodePoint.exists_char_of_unit plain
      exact ⟨c :: cs, by rw [encode_cons, encodeChar_small small, unit, List.singleton_append]⟩
  | pair high low tail ih =>
      obtain ⟨cs, rfl⟩ := ih
      obtain ⟨c, _, large, halves⟩ := CodePoint.exists_char_of_pair high low
      exact ⟨c :: cs, by rw [encode_cons, encodeChar_large large, halves]; rfl⟩

end Utf16

namespace Text

/-- Whether all surrogates of a text stand in pairs. A text given as characters holds none. -/
def WellFormed : Text → Prop
  | chars _ => True
  | units us => Utf16.WellFormed us

/-- The characters of a text, up to the first unmatched surrogate. -/
def characters : Text → List Char
  | chars cs => cs
  | units us => (Utf16.decode us).chars

/-- The first unmatched surrogate of a text. -/
def unmatched : Text → Option Unmatched
  | chars _ => none
  | units us => (Utf16.decode us).unmatched

/-- A well-formed text has no unmatched surrogate, and its units are those of its characters. -/
theorem WellFormed.spelled_out {text : Text} (wellFormed : text.WellFormed) :
    text.unmatched = none ∧ text.codeUnits = Utf16.encode text.characters := by
  cases text with
  | chars cs => exact ⟨rfl, rfl⟩
  | units us =>
      obtain ⟨cs, rfl⟩ := Utf16.WellFormed.exists_encode wellFormed
      refine ⟨?_, (congrArg Utf16.encode (Utf16.chars_decode_encode cs)).symm⟩
      change (Utf16.decodeFrom 0 (Utf16.encode cs)).unmatched = none
      rw [Utf16.decodeFrom_encode]

/-- Well-formed texts with the same characters have the same units. -/
theorem WellFormed.codeUnits_congr {text other : Text} (wellFormed : text.WellFormed)
    (otherWellFormed : other.WellFormed) (same : text.characters = other.characters) :
    text.codeUnits = other.codeUnits := by
  rw [wellFormed.spelled_out.2, otherWellFormed.spelled_out.2, same]

end Text

end IonLiteral
