import IonLiteral.Escape
import IonLiteral.Unicode.Encoding

/-! # Text and its pieces

What is to be written: characters, or code units that may turn out not to be text. A text falls into
runs of plain characters, which stand for themselves in the form they are written in, and single
characters between the runs, which have to be looked at. Runs are as long as they can be and never
empty. There is one scan for characters, one for code units and one for bytes; only the one for code
units can stop before the end, at a surrogate without its partner.
-/

namespace IonLiteral

/-- Text to be written. -/
inductive Text where
  | chars (cs : List Char)
  | units (us : List CodeUnit)
  deriving DecidableEq

namespace Text

/-- Text given as a string. -/
def ofString (s : String) : Text := chars s.toList

/-- Whether there is nothing to write. -/
def isEmpty : Text → Bool
  | chars cs => cs.isEmpty
  | units us => us.isEmpty

/-- The text in UTF-16, or what was given as such. -/
def codeUnits : Text → List CodeUnit
  | chars cs => Utf16.encode cs
  | units us => us

end Text

/-! ## Pieces -/

/-- A run of plain characters, or one thing that is no plain character. -/
inductive Piece (α : Type) where
  | run (text : List Char)
  | special (found : α)
  deriving DecidableEq

namespace Piece

variable {α : Type}

/-- Put a plain character in front, into the run that starts there if there is one. -/
def consPlain (c : Char) : List (Piece α) → List (Piece α)
  | run text :: rest => run (c :: text) :: rest
  | pieces => run [c] :: pieces

end Piece

/-- A character that is not plain, as UTF-16 has it. -/
inductive Special where
  /-- A character of one unit. -/
  | unit (u : CodeUnit)
  /-- A character of two units. -/
  | pair (lead trail : CodeUnit)
  deriving DecidableEq

namespace Special

/-- A character as UTF-16 has it. -/
def ofChar (c : Char) : Special :=
  if c.val < 0x10000 then unit c.val.toUInt16
  else pair (Surrogate.split c.val).1 (Surrogate.split c.val).2

end Special

namespace Form

/-- Whether a character stands for itself in a form, for every sink. -/
def isPlainChar (form : Form) (c : Char) : Bool :=
  c.val < 0x80 && !form.needsEscape c.val.toUInt8

/-- Whether a code unit is a character that stands for itself in a form, for every sink. -/
def isPlainUnit (form : Form) (u : CodeUnit) : Bool :=
  u < 0x100 && !form.needsEscape u.toUInt8

end Form

/-- The pieces of characters. -/
def scanChars (form : Form) (cs : List Char) : List (Piece Special) :=
  cs.foldr (fun c pieces =>
    if form.isPlainChar c then Piece.consPlain c pieces
    else .special (.ofChar c) :: pieces) []

/-- The pieces of code units, up to the first unmatched surrogate, and that surrogate if there is
one. -/
structure Scan where
  pieces : List (Piece Special)
  unmatched : Option Unmatched
  deriving DecidableEq

namespace Scan

/-- Put a plain character in front. -/
def consPlain (c : Char) (scan : Scan) : Scan :=
  { scan with pieces := Piece.consPlain c scan.pieces }

/-- Put a character that is not plain in front. -/
def consSpecial (special : Special) (scan : Scan) : Scan :=
  { scan with pieces := .special special :: scan.pieces }

/-- Nothing before an unmatched surrogate. -/
def stopped (half : Half) (u : CodeUnit) (index : Nat) : Scan :=
  ⟨[], some ⟨half, u, index⟩⟩

end Scan

/-- The pieces of code units of which the first stands at position `index`. -/
def scanUnitsFrom (form : Form) (index : Nat) : List CodeUnit → Scan
  | [] => ⟨[], none⟩
  | u :: rest =>
    if form.isPlainUnit u then
      (scanUnitsFrom form (index + 1) rest).consPlain (Char.ofUInt8 u.toUInt8)
    else if u.isHighSurrogate then
      match rest with
      | [] => .stopped .high u index
      | trail :: rest =>
        if trail.isLowSurrogate then
          (scanUnitsFrom form (index + 2) rest).consSpecial (.pair u trail)
        else .stopped .high u index
    else if u.isLowSurrogate then .stopped .low u index
    else (scanUnitsFrom form (index + 1) rest).consSpecial (.unit u)

/-- The pieces of a text given in code units. -/
def scanUnits (form : Form) (us : List CodeUnit) : Scan :=
  scanUnitsFrom form 0 us

/-- The pieces of bytes. What is not plain is an escape already, since no sink takes a byte above
`0x7E` as it is. -/
def scanBytes (form : Form) (bytes : List UInt8) : List (Piece Escape) :=
  bytes.foldr (fun byte pieces =>
    match form.escape? byte with
    | none => Piece.consPlain (Char.ofUInt8 byte) pieces
    | some escape => .special escape :: pieces) []

end IonLiteral
