import IonLiteral.Render.Body
import IonLiteral.Symbol

/-! # Values

A value is written as its body between delimiters. A value that is absent is written as the null of
its type.
-/

namespace IonLiteral.Sink

variable {σ : Type}

/-- Write a body between delimiters, or the null where there is no body. -/
def writeQuoted (s : Sink σ) (quoting : Quoting) : Option (SinkM σ Unit) → SinkM σ Unit
  | none => s.putAscii quoting.absent
  | some body => do
    s.putAscii quoting.delimiter
    body
    s.putAscii quoting.delimiter

/-- Write a text as a quoted value. -/
def writeText (s : Sink σ) (quoting : Quoting) (text : Option Text) : SinkM σ Unit :=
  s.writeQuoted quoting (text.map (s.writeBody quoting.form))

/-- Write bytes as a quoted value. -/
def writeBytes (s : Sink σ) (quoting : Quoting) (bytes : Option (List UInt8)) : SinkM σ Unit :=
  s.writeQuoted quoting (bytes.map (s.writeByteBody quoting.form))

/-- Write a string between double quotes. -/
def writeString (s : Sink σ) (text : Option Text) : SinkM σ Unit :=
  s.writeText .string text

/-- Write a string between triple quotes, with its line feeds as they are. -/
def writeLongString (s : Sink σ) (text : Option Text) : SinkM σ Unit :=
  s.writeText .longString text

/-- Write a string of JSON. -/
def writeJsonString (s : Sink σ) (text : Option Text) : SinkM σ Unit :=
  s.writeText .json text

/-- Write a symbol in quotes, whatever its text. There is no empty symbol. -/
def writeQuotedSymbol (s : Sink σ) (text : Option Text) : SinkM σ Unit :=
  if text.any Text.isEmpty then throw .emptySymbol else s.writeText .symbol text

/-- Write a symbol, in quotes only if it needs them. Bare symbols are plain from end to end, so their
bodies are their texts. -/
def writeSymbol (s : Sink σ) (quoteOperators : Bool) : Option Text → SinkM σ Unit
  | none => s.putAscii Quoting.symbol.absent
  | some text =>
    match Symbol.needsQuotes text quoteOperators with
    | .error fault => throw fault
    | .ok true => s.writeText .symbol (some text)
    | .ok false => s.writeBody .symbol text

/-- Write a clob between double quotes. -/
def writeClob (s : Sink σ) (bytes : Option (List UInt8)) : SinkM σ Unit :=
  s.writeBytes .clob bytes

/-- Write a clob between triple quotes, with its line feeds as they are. -/
def writeLongClob (s : Sink σ) (bytes : Option (List UInt8)) : SinkM σ Unit :=
  s.writeBytes .longClob bytes

/-- Write a clob as a string of JSON, one character for each byte. -/
def writeJsonClob (s : Sink σ) (bytes : Option (List UInt8)) : SinkM σ Unit :=
  s.writeBytes .jsonClob bytes

end IonLiteral.Sink
