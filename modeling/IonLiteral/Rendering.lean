import IonLiteral.Render.Character
import IonLiteral.Render.Value
import IonLiteral.Sink.Recorder

/-! # Renderings

Everything that can be asked of a sink's writers, as data. A rendering can be kept, counted and
carried out on several sinks. What it does to a recorder is its script.
-/

namespace IonLiteral

/-- One thing to write, and how. -/
inductive Rendering where
  | string (text : Option Text)
  | longString (text : Option Text)
  | jsonString (text : Option Text)
  | symbol (text : Option Text) (quoteOperators : Bool)
  | quotedSymbol (text : Option Text)
  | clob (bytes : Option (List UInt8))
  | longClob (bytes : Option (List UInt8))
  | jsonClob (bytes : Option (List UInt8))
  /-- A body without delimiters. -/
  | body (text : Text) (form : Form)
  /-- One character by its number, without delimiters. -/
  | codePoint (cp : CodePoint) (form : Form)
  /-- Characters one at a time, without delimiters. -/
  | chars (cs : List Char) (form : Form)
  /-- Code units one character at a time, without delimiters. -/
  | units (us : List CodeUnit) (form : Form)

namespace Rendering

/-- Carry out a rendering. -/
def write {σ : Type} (s : Sink σ) : Rendering → SinkM σ Unit
  | string text => s.writeString text
  | longString text => s.writeLongString text
  | jsonString text => s.writeJsonString text
  | symbol text quoteOperators => s.writeSymbol quoteOperators text
  | quotedSymbol text => s.writeQuotedSymbol text
  | clob bytes => s.writeClob bytes
  | longClob bytes => s.writeLongClob bytes
  | jsonClob bytes => s.writeJsonClob bytes
  | body text form => s.writeBody form text
  | codePoint cp form => s.writeCodePoint form cp
  | chars cs form => s.writeChars form cs
  | units us form => s.writeUnits form us

/-- The script of a rendering. -/
def script (rendering : Rendering) (escapesUnicode : Bool) : Script :=
  scriptOf escapesUnicode rendering.write

/-- The rendering of characters as a value of a form. A clob takes their bytes in UTF-8. -/
def ofChars (cs : List Char) (quoteOperators : Bool) : Form → Rendering
  | .shortString => string (some (.chars cs))
  | .longString => longString (some (.chars cs))
  | .symbol => symbol (some (.chars cs)) quoteOperators
  | .clob => clob (some (Utf8.encode cs))
  | .json => jsonString (some (.chars cs))

end Rendering

end IonLiteral
