import IonLiteral.Unicode.Surrogate

/-! # UTF-8 and UTF-16

Encoding of characters as bytes and as code units, and decoding of units that may be malformed. A
list of units is well formed when it is made of units that are no surrogates and of surrogate pairs.
Decoding stops at the first surrogate without its partner and says where it stands.
-/

namespace IonLiteral

/-! ## Bytes -/

namespace Utf8

/-- The bytes of a text. -/
def encode (cs : List Char) : List UInt8 :=
  cs.flatMap String.utf8EncodeChar

@[simp]
theorem encode_nil : encode [] = [] := rfl

@[simp]
theorem encode_cons (c : Char) (cs : List Char) :
    encode (c :: cs) = String.utf8EncodeChar c ++ encode cs := rfl

/-- The bytes of two texts one after the other. -/
@[simp]
theorem encode_append (cs ds : List Char) : encode (cs ++ ds) = encode cs ++ encode ds := by
  simp [encode]

/-- The number of bytes of a text. -/
def size (cs : List Char) : Nat :=
  (encode cs).length

end Utf8

/-! ## Code units -/

/-- The half of a surrogate pair that a unit is. -/
inductive Half where
  | high
  | low
  deriving DecidableEq

/-- A surrogate without its partner: which half it is, the unit itself and its position, counted in
units from the start of the text. -/
structure Unmatched where
  half : Half
  unit : CodeUnit
  index : Nat
  deriving DecidableEq

namespace Utf16

/-- The one or two units of a character. -/
def encodeChar (c : Char) : List CodeUnit :=
  if c.val < 0x10000 then [c.val.toUInt16]
  else [(Surrogate.split c.val).1, (Surrogate.split c.val).2]

/-- The units of a text. -/
def encode (cs : List Char) : List CodeUnit :=
  cs.flatMap encodeChar

@[simp]
theorem encode_nil : encode [] = [] := rfl

@[simp]
theorem encode_cons (c : Char) (cs : List Char) :
    encode (c :: cs) = encodeChar c ++ encode cs := rfl

/-- The units of two texts one after the other. -/
@[simp]
theorem encode_append (cs ds : List Char) : encode (cs ++ ds) = encode cs ++ encode ds := by
  simp [encode]

/-- A text in UTF-16: every high surrogate is followed by a low one, and low surrogates stand
nowhere else. -/
inductive WellFormed : List CodeUnit → Prop
  | nil : WellFormed []
  | unit {u : CodeUnit} {rest : List CodeUnit} (plain : u.isSurrogate = false)
      (tail : WellFormed rest) : WellFormed (u :: rest)
  | pair {lead trail : CodeUnit} {rest : List CodeUnit} (high : lead.isHighSurrogate = true)
      (low : trail.isLowSurrogate = true) (tail : WellFormed rest) :
      WellFormed (lead :: trail :: rest)

/-- What decoding yields: the code points before the first unmatched surrogate, and that surrogate
if there is one. -/
structure Decoded where
  codePoints : List CodePoint
  unmatched : Option Unmatched
  deriving DecidableEq

/-- Put a code point in front. -/
def Decoded.cons (cp : CodePoint) (d : Decoded) : Decoded :=
  { d with codePoints := cp :: d.codePoints }

/-- Decode units of which the first stands at position `index`. -/
def decodeFrom (index : Nat) : List CodeUnit → Decoded
  | [] => ⟨[], none⟩
  | u :: rest =>
    if u.isHighSurrogate then
      match rest with
      | [] => ⟨[], some ⟨.high, u, index⟩⟩
      | trail :: rest =>
        if trail.isLowSurrogate then
          (decodeFrom (index + 2) rest).cons (Surrogate.combine u trail)
        else ⟨[], some ⟨.high, u, index⟩⟩
    else if u.isLowSurrogate then ⟨[], some ⟨.low, u, index⟩⟩
    else (decodeFrom (index + 1) rest).cons u.toUInt32

/-- Decode a text up to its first unmatched surrogate. -/
def decode (us : List CodeUnit) : Decoded :=
  decodeFrom 0 us

/-- The character for a code point, and `U+FFFD` where there is none. -/
def charOrReplacement (cp : CodePoint) : Char :=
  cp.toChar?.getD '\uFFFD'

/-- Decode a text to its end: every unmatched surrogate becomes `U+FFFD`. -/
def decodeLossy : List CodeUnit → List Char
  | [] => []
  | u :: rest =>
    if u.isHighSurrogate then
      match rest with
      | [] => ['\uFFFD']
      | trail :: rest' =>
        if trail.isLowSurrogate then
          charOrReplacement (Surrogate.combine u trail) :: decodeLossy rest'
        else '\uFFFD' :: decodeLossy (trail :: rest')
    else charOrReplacement u.toUInt32 :: decodeLossy rest

end Utf16

end IonLiteral
