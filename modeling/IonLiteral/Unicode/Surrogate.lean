import IonLiteral.Unicode.CodePoint

/-! # Surrogates

Characters from `U+10000` up are written in UTF-16 as a high surrogate followed by a low one. The
distance from `U+10000` is a two-digit number in base `0x400`: the high surrogate carries the first
digit and the low one the second.
-/

namespace IonLiteral

namespace CodeUnit

/-- The first half of a surrogate pair. -/
def isHighSurrogate (u : CodeUnit) : Bool :=
  0xD800 ≤ u && u < 0xDC00

/-- The second half of a surrogate pair. -/
def isLowSurrogate (u : CodeUnit) : Bool :=
  0xDC00 ≤ u && u ≤ 0xDFFF

/-- Either half of a surrogate pair. -/
def isSurrogate (u : CodeUnit) : Bool :=
  0xD800 ≤ u && u ≤ 0xDFFF

/-- The range of the first halves, in numbers. -/
theorem isHighSurrogate_iff {u : CodeUnit} :
    isHighSurrogate u = true ↔ 0xD800 ≤ u.toNat ∧ u.toNat < 0xDC00 := by
  simp [isHighSurrogate, UInt16.le_iff_toNat_le, UInt16.lt_iff_toNat_lt]

/-- The range of the second halves, in numbers. -/
theorem isLowSurrogate_iff {u : CodeUnit} :
    isLowSurrogate u = true ↔ 0xDC00 ≤ u.toNat ∧ u.toNat ≤ 0xDFFF := by
  simp [isLowSurrogate, UInt16.le_iff_toNat_le]

/-- The range of both halves, in numbers. -/
theorem isSurrogate_iff {u : CodeUnit} :
    isSurrogate u = true ↔ 0xD800 ≤ u.toNat ∧ u.toNat ≤ 0xDFFF := by
  simp [isSurrogate, UInt16.le_iff_toNat_le]

end CodeUnit

namespace Surrogate

/-- The code point that a surrogate pair stands for. On other units it is the same arithmetic,
modulo the width of a code point. -/
def combine (lead trail : CodeUnit) : CodePoint :=
  0x10000 + (lead - 0xD800).toUInt32 * 0x400 + (trail - 0xDC00).toUInt32

/-- The surrogate pair of a code point from `0x10000` up. Of a distance too large for two digits the
first digit keeps its low sixteen bits. -/
def split (cp : CodePoint) : CodeUnit × CodeUnit :=
  let distance := cp - 0x10000
  (0xD800 + (distance / 0x400).toUInt16, 0xDC00 + (distance % 0x400).toUInt16)

/-- The code point of a pair, in numbers. Nothing wraps around there. -/
theorem toNat_combine {lead trail : CodeUnit} (high : lead.isHighSurrogate = true)
    (low : trail.isLowSurrogate = true) :
    (combine lead trail).toNat =
      0x10000 + (lead.toNat - 0xD800) * 0x400 + (trail.toNat - 0xDC00) := by
  have leadBounds := CodeUnit.isHighSurrogate_iff.mp high
  have trailBounds := CodeUnit.isLowSurrogate_iff.mp low
  simp only [combine, UInt32.toNat_add, UInt32.toNat_mul, UInt16.toNat_toUInt32, UInt16.toNat_sub,
    UInt32.toNat_ofNat, UInt16.toNat_ofNat]
  omega

/-- The pair of a code point, in numbers. Nothing wraps around there. -/
theorem toNat_split {cp : CodePoint} (above : 0x10000 ≤ cp.toNat) (below : cp.toNat < 0x110000) :
    (split cp).1.toNat = 0xD800 + (cp.toNat - 0x10000) / 0x400 ∧
      (split cp).2.toNat = 0xDC00 + (cp.toNat - 0x10000) % 0x400 := by
  simp only [split, UInt16.toNat_add, UInt32.toNat_toUInt16, UInt32.toNat_div, UInt32.toNat_mod,
    UInt32.toNat_sub, UInt32.toNat_ofNat, UInt16.toNat_ofNat, Nat.reducePow, Nat.reduceMod]
  omega

/-- The first unit of a pair is a high surrogate. -/
theorem isHighSurrogate_split {cp : CodePoint} (above : 0x10000 ≤ cp.toNat)
    (below : cp.toNat < 0x110000) : (split cp).1.isHighSurrogate = true := by
  have lead := (toNat_split above below).1
  exact CodeUnit.isHighSurrogate_iff.mpr (by omega)

/-- The second unit of a pair is a low surrogate. -/
theorem isLowSurrogate_split {cp : CodePoint} (above : 0x10000 ≤ cp.toNat)
    (below : cp.toNat < 0x110000) : (split cp).2.isLowSurrogate = true := by
  have trail := (toNat_split above below).2
  exact CodeUnit.isLowSurrogate_iff.mpr (by omega)

/-- The pair of a code point stands for that code point. -/
theorem combine_split {cp : CodePoint} (above : 0x10000 ≤ cp.toNat)
    (below : cp.toNat < 0x110000) : combine (split cp).1 (split cp).2 = cp := by
  obtain ⟨lead, trail⟩ := toNat_split above below
  apply UInt32.toNat_inj.mp
  rw [toNat_combine (isHighSurrogate_split above below) (isLowSurrogate_split above below), lead,
    trail]
  omega

/-- What a pair stands for has that pair. -/
theorem split_combine {lead trail : CodeUnit} (high : lead.isHighSurrogate = true)
    (low : trail.isLowSurrogate = true) : split (combine lead trail) = (lead, trail) := by
  have value := toNat_combine high low
  have leadBounds := CodeUnit.isHighSurrogate_iff.mp high
  have trailBounds := CodeUnit.isLowSurrogate_iff.mp low
  obtain ⟨first, second⟩ := @toNat_split (combine lead trail) (by omega) (by omega)
  refine Prod.ext (UInt16.toNat_inj.mp ?_) (UInt16.toNat_inj.mp ?_)
  · simp only [first, value]
    omega
  · simp only [second, value]
    omega

end Surrogate

end IonLiteral
