import IonLiteral.Options
import IonLiteral.Rendering
import IonLiteral.Sink.Adapters

/-! # Printing

Values as strings, and as bytes for a writer. The plain functions print ASCII only.
-/

namespace IonLiteral

/-- What a writer puts into an empty string, if it writes to the end. -/
def collect (escapesUnicode : Bool) (write : Sink String → SinkM String Unit) :
    Except Fault String :=
  match write (.characters escapesUnicode none) "" with
  | .ok _ written => .ok written
  | .error fault _ => .error fault

/-- Print a string between double quotes. -/
def printString (text : String) : Except Fault String :=
  collect true fun s => s.writeString (some (.ofString text))

/-- Print a string between triple quotes. -/
def printLongString (text : String) : Except Fault String :=
  collect true fun s => s.writeLongString (some (.ofString text))

/-- Print a string of JSON. -/
def printJsonString (text : String) : Except Fault String :=
  collect true fun s => s.writeJsonString (some (.ofString text))

/-- Print a symbol, in quotes if it needs them anywhere. -/
def printSymbol (text : String) : Except Fault String :=
  collect true fun s => s.writeSymbol true (some (.ofString text))

/-- Print a symbol in quotes. -/
def printQuotedSymbol (text : String) : Except Fault String :=
  collect true fun s => s.writeQuotedSymbol (some (.ofString text))

/-- Print a clob between double quotes. -/
def printClob (bytes : List UInt8) : Except Fault String :=
  collect true fun s => s.writeClob (some bytes)

/-- Print the character with a given number as a string between double quotes. -/
def printCodePoint (cp : CodePoint) : Except Fault String :=
  collect true fun s => s.writeQuoted .string (some (s.writeCodePoint .shortString cp))

/-- Print a value of a form as the options say. The charset decides only what is escaped. -/
def printWith (options : Options) (form : Form) (text : String) : Except Fault String :=
  collect options.charset.escapesUnicode
    (Rendering.ofChars text.toList options.quoteOperators form).write

/-- Write a value of a form to a byte writer, in the charset of the options. -/
def writeTo (w : ByteWriter) (options : Options) (form : Form) (text : String) :
    SinkM (Array UInt8) Unit :=
  (Rendering.ofChars text.toList options.quoteOperators form).write (.bytes options.charset w)

end IonLiteral
