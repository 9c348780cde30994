import IonLiteral.Proofs.Decoding
import IonLiteral.Reader.Symbol

/-! # Kinds of symbols, unit by unit and character by character

Whether a symbol can stand bare is decided on code units, and a reader goes by characters. For a
well-formed text both come to the same: all lexical classes and keywords are ASCII, so a character
of two units belongs to no class, and neither do its units.
-/

namespace IonLiteral

namespace Lexical

/-- A class of ASCII characters. -/
def IsAscii (P : CodePoint → Bool) : Prop :=
  ∀ cp, P cp = true → cp < 0x80

/-- Identifiers are made of printable ASCII. -/
theorem isPrintable_of_isIdentifierPart {cp : CodePoint} (part : isIdentifierPart cp = true) :
    cp.isBetween ' ' '~' = true := by
  simp only [isIdentifierPart, isIdentifierStart, isLetter, isDecimalDigit, CodePoint.isBetween,
    Bool.or_eq_true, Bool.and_eq_true, decide_eq_true_eq, beq_iff_eq] at part ⊢
  rcases part with (((⟨large, small⟩ | ⟨large, small⟩) | rfl) | rfl) | ⟨large, small⟩
  · exact ⟨UInt32.le_trans (by decide) large, UInt32.le_trans small (by decide)⟩
  · exact ⟨UInt32.le_trans (by decide) large, UInt32.le_trans small (by decide)⟩
  · decide
  · decide
  · exact ⟨UInt32.le_trans (by decide) large, UInt32.le_trans small (by decide)⟩

/-- Identifiers have no character beyond printable ASCII. -/
theorem le_of_isIdentifierPart {cp : CodePoint} (part : isIdentifierPart cp = true) :
    cp ≤ '~'.val :=
  of_decide_eq_true (Bool.and_eq_true_iff.mp (isPrintable_of_isIdentifierPart part)).2

theorem isAscii_isIdentifierPart : IsAscii isIdentifierPart := fun _ part =>
  UInt32.lt_of_le_of_lt (le_of_isIdentifierPart part) (by decide)

/-- An identifier goes on with whatever may start it. -/
theorem isIdentifierPart_of_isIdentifierStart {cp : CodePoint}
    (start : isIdentifierStart cp = true) : isIdentifierPart cp = true :=
  Bool.or_eq_true_iff.mpr (.inl start)

theorem isAscii_isIdentifierStart : IsAscii isIdentifierStart := fun cp start =>
  isAscii_isIdentifierPart cp (isIdentifierPart_of_isIdentifierStart start)

theorem isAscii_isDecimalDigit : IsAscii isDecimalDigit := fun cp digit =>
  isAscii_isIdentifierPart cp (Bool.or_eq_true_iff.mpr (.inr digit))

/-- Operators have no character beyond printable ASCII. -/
theorem le_of_isOperatorPart {cp : CodePoint} (part : isOperatorPart cp = true) :
    cp ≤ '~'.val := by
  have each : (operatorChars.all fun c => c.val ≤ '~'.val) = true := by decide
  obtain ⟨c, member, same⟩ := List.any_eq_true.mp part
  rw [← eq_of_beq same]
  exact of_decide_eq_true (List.all_eq_true.mp each c member)

theorem isAscii_isOperatorPart : IsAscii isOperatorPart := fun _ part =>
  UInt32.lt_of_le_of_lt (le_of_isOperatorPart part) (by decide)

/-- No operator character starts an identifier. -/
theorem isIdentifierStart_of_isOperatorPart {cp : CodePoint} (part : isOperatorPart cp = true) :
    isIdentifierStart cp = false := by
  have each : (operatorChars.all fun c => !isIdentifierStart c.val) = true := by decide
  obtain ⟨c, member, same⟩ := List.any_eq_true.mp part
  rw [← eq_of_beq same]
  exact (Bool.not_eq_true' _).mp (List.all_eq_true.mp each c member)

/-- A character of one unit belongs to a class as its unit does. -/
theorem class_unit (P : CodePoint → Bool) {c : Char} (small : c.val < 0x10000) :
    P (c.val.toUInt16).toUInt32 = P c.val := by
  rw [CodePoint.toUInt32_toUInt16 small]

/-- Beyond ASCII nothing belongs to a class of ASCII characters. -/
theorem IsAscii.eq_false {P : CodePoint → Bool} (ascii : IsAscii P) {cp : CodePoint}
    (large : ¬ cp < 0x80) : P cp = false :=
  Bool.eq_false_iff.mpr fun member => large (ascii cp member)

/-- No first half of a pair belongs to a class of ASCII characters. -/
theorem IsAscii.lead_eq_false {P : CodePoint → Bool} (ascii : IsAscii P) {c : Char}
    (large : ¬ c.val < 0x10000) : P (Surrogate.split c.val).1.toUInt32 = false := by
  have high := CodeUnit.isHighSurrogate_iff.mp (CodePoint.split_isPair large).1
  refine ascii.eq_false fun small => ?_
  have bound : (Surrogate.split c.val).1.toUInt32.toNat < 0x80 := UInt32.lt_iff_toNat_lt.mp small
  rw [UInt16.toNat_toUInt32] at bound
  omega

/-- No character of two units belongs to a class of ASCII characters. -/
theorem IsAscii.large_eq_false {P : CodePoint → Bool} (ascii : IsAscii P) {c : Char}
    (large : ¬ c.val < 0x10000) : P c.val = false :=
  ascii.eq_false fun small => large (UInt32.lt_trans small (by decide))

/-- **Units belong to a class as their characters do.** -/
theorem IsAscii.all_encode {P : CodePoint → Bool} (ascii : IsAscii P) (cs : List Char) :
    ((Utf16.encode cs).all fun u => P u.toUInt32) = cs.all fun c => P c.val := by
  induction cs with
  | nil => rfl
  | cons c cs ih =>
      rw [Utf16.encode_cons, List.all_append, ih, List.all_cons]
      by_cases small : c.val < 0x10000
      · rw [Utf16.encodeChar_small small, List.all_cons, class_unit P small, List.all_nil,
          Bool.and_true]
      · rw [Utf16.encodeChar_large small, List.all_cons, ascii.lead_eq_false small,
          ascii.large_eq_false small, Bool.false_and]

end Lexical

namespace Symbol

theorem isEmpty_encode (cs : List Char) : (Utf16.encode cs).isEmpty = cs.isEmpty := by
  cases cs with
  | nil => rfl
  | cons c cs =>
      rw [Utf16.encode_cons]
      unfold Utf16.encodeChar
      split <;> rfl

/-- Symbol identifiers in units are those in characters. -/
theorem isSymbolId_encode (c : Char) (cs : List Char) :
    isSymbolId (Utf16.encode (c :: cs)) =
      (c == '$' && !cs.isEmpty && cs.all fun d => Lexical.isDecimalDigit d.val) := by
  have dollar : Lexical.IsAscii (· == '$'.val) := by
    intro cp same
    rw [eq_of_beq same]
    decide
  have sameChar : (c.val == '$'.val) = (c == '$') :=
    Bool.eq_iff_iff.mpr (beq_iff_eq.trans (Char.ext_iff.symm.trans beq_iff_eq.symm))
  rw [Utf16.encode_cons, ← sameChar]
  by_cases small : c.val < 0x10000
  · rw [Utf16.encodeChar_small small, List.singleton_append, isSymbolId, isEmpty_encode,
      Lexical.isAscii_isDecimalDigit.all_encode, CodePoint.toUInt32_toUInt16 small]
  · have noLead := dollar.lead_eq_false small
    have noChar := dollar.large_eq_false small
    rw [Utf16.encodeChar_large small, List.cons_append, isSymbolId, noLead, noChar]
    rfl

/-- Keywords in units are those in characters. -/
theorem keywords_encode (cs : List Char) :
    (keywords.any fun keyword => Utf16.encode keyword == Utf16.encode cs) =
      keywords.contains cs := by
  rw [List.contains_eq_any_beq]
  refine congrArg keywords.any (funext fun keyword => Bool.eq_iff_iff.mpr ?_)
  rw [beq_iff_eq, beq_iff_eq]
  exact ⟨fun same => (Utf16.encode_injective same).symm, fun same => same ▸ rfl⟩

/-- **Units and characters are reserved alike.** -/
theorem isReserved_encode (cs : List Char) :
    isReserved (Utf16.encode cs) = Reader.isReserved cs := by
  unfold isReserved Reader.isReserved
  rw [keywords_encode, Bool.or_comm]
  cases cs with
  | nil => rfl
  | cons c cs =>
      rw [isSymbolId_encode]
      by_cases dollar : c = '$'
      · rw [dollar]
        rfl
      · rw [beq_false_of_ne dollar, Bool.false_and, Bool.false_and]
        split
        · rename_i same
          cases same
          exact absurd rfl dollar
        · rfl

/-- **Parts of identifiers stand bare.** They are printable and no quotes, so nothing is left out by
asking for that as well. -/
theorem isBareIdentifierUnit_eq (u : CodeUnit) :
    isBareIdentifierUnit u = Lexical.isIdentifierPart u.toUInt32 := by
  unfold isBareIdentifierUnit
  cases part : Lexical.isIdentifierPart u.toUInt32 with
  | false => rw [Bool.and_false]
  | true =>
      have noApostrophe : u.toUInt32 ≠ '\''.val := by
        intro same
        rw [same] at part
        cases part
      have noQuote : u.toUInt32 ≠ '"'.val := by
        intro same
        rw [same] at part
        cases part
      rw [Lexical.isPrintable_of_isIdentifierPart part, bne_iff_ne.mpr noApostrophe, bne_iff_ne.mpr noQuote]
      rfl

/-- **The first unit is looked at once.** What it says for the others holds of itself, so the kind of
a symbol goes by its first unit and then by those behind it. -/
theorem kindOfUnits_cons (u : CodeUnit) (rest : List CodeUnit) :
    kindOfUnits (u :: rest) =
      if isReserved (u :: rest) then .ok .quoted
      else if Lexical.isIdentifierStart u.toUInt32 then
        if rest.all fun r => Lexical.isIdentifierPart r.toUInt32 then .ok .identifier
        else .ok .quoted
      else if Lexical.isOperatorPart u.toUInt32 then
        if rest.all fun r => Lexical.isOperatorPart r.toUInt32 then .ok .operator else .ok .quoted
      else .ok .quoted := by
  rw [kindOfUnits, funext isBareIdentifierUnit_eq]
  by_cases start : Lexical.isIdentifierStart u.toUInt32 = true
  · have part := Lexical.isIdentifierPart_of_isIdentifierStart start
    rw [if_pos start, if_pos start, List.all_cons, part, Bool.true_and]
  · rw [if_neg start, if_neg start]
    by_cases operator : Lexical.isOperatorPart u.toUInt32 = true
    · rw [if_pos operator, if_pos operator, List.all_cons, operator, Bool.true_and]
    · rw [if_neg operator, if_neg operator]

/-- **The kind of a symbol in characters.** -/
theorem kindOfUnits_encode (c : Char) (cs : List Char) :
    kindOfUnits (Utf16.encode (c :: cs)) = .ok
      (if Reader.isReserved (c :: cs) then .quoted
      else if Lexical.isIdentifierStart c.val then
        if cs.all fun d => Lexical.isIdentifierPart d.val then .identifier else .quoted
      else if Lexical.isOperatorPart c.val then
        if cs.all fun d => Lexical.isOperatorPart d.val then .operator else .quoted
      else .quoted) := by
  have reserved := isReserved_encode (c :: cs)
  rw [Utf16.encode_cons] at reserved ⊢
  by_cases small : c.val < 0x10000
  · rw [Utf16.encodeChar_small small, List.singleton_append] at reserved ⊢
    rw [kindOfUnits_cons, reserved, CodePoint.toUInt32_toUInt16 small,
      Lexical.isAscii_isIdentifierPart.all_encode, Lexical.isAscii_isOperatorPart.all_encode]
    repeat' split
    all_goals rfl
  · rw [Utf16.encodeChar_large small, List.cons_append] at reserved ⊢
    rw [kindOfUnits_cons, reserved, Lexical.isAscii_isIdentifierStart.lead_eq_false small,
      Lexical.isAscii_isIdentifierStart.large_eq_false small,
      Lexical.isAscii_isOperatorPart.lead_eq_false small,
      Lexical.isAscii_isOperatorPart.large_eq_false small]
    split <;> rfl

/-- **Strangers need quotes.** A text with a unit that is part of no identifier and of no operator
does not stand bare. -/
theorem kindOfUnits_of_stranger {us : List CodeUnit} {stranger : CodeUnit} (member : stranger ∈ us)
    (noPart : Lexical.isIdentifierPart stranger.toUInt32 = false)
    (noOperator : Lexical.isOperatorPart stranger.toUInt32 = false) :
    kindOfUnits us = .ok .quoted := by
  cases us with
  | nil => cases member
  | cons u rest =>
      have notAll {P : CodePoint → Bool} (first : P u.toUInt32 = true)
          (outside : P stranger.toUInt32 = false) : ¬ (rest.all fun r => P r.toUInt32) = true := by
        intro all
        rcases List.mem_cons.mp member with rfl | member
        · rw [first] at outside
          cases outside
        · rw [List.all_eq_true.mp all stranger member] at outside
          cases outside
      rw [kindOfUnits_cons]
      by_cases reserved : isReserved (u :: rest) = true
      · rw [if_pos reserved]
      rw [if_neg reserved]
      by_cases start : Lexical.isIdentifierStart u.toUInt32 = true
      · have part := Lexical.isIdentifierPart_of_isIdentifierStart start
        rw [if_pos start, if_neg (notAll part noPart)]
      · rw [if_neg start]
        by_cases operator : Lexical.isOperatorPart u.toUInt32 = true
        · rw [if_pos operator, if_neg (notAll operator noOperator)]
        · rw [if_neg operator]

end Symbol

end IonLiteral
