import IonLiteral.Sink
import IonLiteral.Spelling
import IonLiteral.Text

/-! # Bodies

The body of a value is what stands between its delimiters. A run of plain characters goes to the sink
in one operation, and only what stands between runs is decided one by one, by the escape table of the
form.
-/

namespace IonLiteral

/-- How a character that is not plain is written in a form. Below `0x80` the table decides for every
sink; from there up it is asked only for a sink that escapes. -/
def Special.spelling (form : Form) (escapesUnicode : Bool) : Special → Spelling
  | .unit u =>
    if u < 0x100 then
      match form.escape? u.toUInt8 with
      | some escape => if u < 0x80 || escapesUnicode then .escaped [escape] else .itself
      | none => .itself
    else if escapesUnicode then .escaped [.u u.toNat]
    else .itself
  | .pair lead trail =>
    if escapesUnicode then
      if form.isJson then .escaped [.u lead.toNat, .u trail.toNat]
      else .escaped [.wide (Surrogate.combine lead trail).toNat]
    else .itself

namespace Sink

variable {σ : Type}

/-- Put an escape. -/
def putEscape (s : Sink σ) (escape : Escape) : SinkM σ Unit :=
  s.putAscii escape.text

/-- Put escapes one by one. -/
def putEscapes (s : Sink σ) (escapes : List Escape) : SinkM σ Unit :=
  escapes.forM s.putEscape

/-- Put a character that is not plain, unescaped. -/
def putVerbatim (s : Sink σ) : Special → SinkM σ Unit
  | .unit u =>
    match CodePoint.toChar? u.toUInt32 with
    | some c => s.putChar c
    | none => throw (.notScalar u.toUInt32)
  | .pair lead trail => s.putPair lead trail

/-- Put a character that is not plain, as the form asks. -/
def putSpecial (s : Sink σ) (form : Form) (special : Special) : SinkM σ Unit :=
  match special.spelling form s.escapesUnicode with
  | .escaped escapes => s.putEscapes escapes
  | .itself => s.putVerbatim special

/-- Put a run as it is, or what is no run by `putFound`. -/
def putPiece {α : Type} (s : Sink σ) (putFound : α → SinkM σ Unit) : Piece α → SinkM σ Unit
  | .run text => s.putAscii text
  | .special found => putFound found

/-- Put the pieces of a text. -/
def putPieces (s : Sink σ) (form : Form) (pieces : List (Piece Special)) : SinkM σ Unit :=
  pieces.forM (s.putPiece (s.putSpecial form))

/-- Stop at an unmatched surrogate, if there is one. -/
def stopAt (unmatched : Option Unmatched) : SinkM σ Unit :=
  match unmatched with
  | none => pure ()
  | some found => throw (.unmatchedSurrogate found)

/-- Write the body of a text. Code units are written up to the first unmatched surrogate. -/
def writeBody (s : Sink σ) (form : Form) : Text → SinkM σ Unit
  | .chars cs => s.putPieces form (scanChars form cs)
  | .units us => do
    s.putPieces form (scanUnits form us).pieces
    stopAt (scanUnits form us).unmatched

/-- Write the body of a clob. What it looks like depends on no charset. -/
def writeByteBody (s : Sink σ) (form : Form) (bytes : List UInt8) : SinkM σ Unit :=
  (scanBytes form bytes).forM (s.putPiece s.putEscape)

end Sink

end IonLiteral
