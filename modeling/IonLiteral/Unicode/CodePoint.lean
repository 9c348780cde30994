/-! # Code units and code points

Text reaches the writers either as characters or as raw UTF-16 code units. A code unit is any 16-bit
number and a code point any 32-bit number; neither has to be, or to belong to, a Unicode character.
-/

namespace IonLiteral

/-- A UTF-16 code unit. The surrogates are among them. -/
abbrev CodeUnit := UInt16

/-- A number offered as a character. It may be a surrogate or lie beyond the last character. -/
abbrev CodePoint := UInt32

namespace CodePoint

/-- The character with this number. Surrogates and numbers above `U+10FFFF` have none. -/
def toChar? (cp : CodePoint) : Option Char :=
  if valid : cp.isValidChar then some ⟨cp, valid⟩ else none

/-- Every character has its own number. -/
@[simp]
theorem toChar?_val (c : Char) : toChar? c.val = some c := by
  simp [toChar?, c.valid]

/-- The numbers without a character are those outside the range of characters. -/
theorem toChar?_eq_none_iff {cp : CodePoint} : toChar? cp = none ↔ ¬ cp.isValidChar := by
  simp [toChar?]

/-- Whether the code point lies between two characters, both included. -/
def isBetween (first last : Char) (cp : CodePoint) : Bool :=
  first.val ≤ cp && cp ≤ last.val

end CodePoint

end IonLiteral
