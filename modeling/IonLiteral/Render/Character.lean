import IonLiteral.Render.Body

/-! # One character at a time

Each character is written by itself, with no thought of its neighbours and no table. The output is
the output of the bodies, cut into smaller operations.
-/

namespace IonLiteral.Sink

variable {σ : Type}

/-- Put a character as it is, by the operation meant for it. -/
def putItself (s : Sink σ) (c : Char) : SinkM σ Unit :=
  if c.val < 0x80 then s.putAscii [c]
  else if c.val < 0x10000 then s.putChar c
  else s.putPair (Surrogate.split c.val).1 (Surrogate.split c.val).2

/-- Write a character, escaped where the form asks for it. -/
def writeChar (s : Sink σ) (form : Form) (c : Char) : SinkM σ Unit :=
  match Spelling.ofChar form s.escapesUnicode c with
  | .escaped escapes => s.putEscapes escapes
  | .itself => s.putItself c

/-- Write the character with a given number, which has to exist. -/
def writeCodePoint (s : Sink σ) (form : Form) (cp : CodePoint) : SinkM σ Unit :=
  match cp.toChar? with
  | some c => s.writeChar form c
  | none => throw (.notScalar cp)

/-- Write characters one at a time. -/
def writeChars (s : Sink σ) (form : Form) (cs : List Char) : SinkM σ Unit :=
  cs.forM (s.writeChar form)

/-- Decode code units and write them one character at a time, up to the first unmatched surrogate. -/
def writeUnits (s : Sink σ) (form : Form) (us : List CodeUnit) : SinkM σ Unit := do
  (Utf16.decode us).codePoints.forM (s.writeCodePoint form)
  stopAt (Utf16.decode us).unmatched

end IonLiteral.Sink
