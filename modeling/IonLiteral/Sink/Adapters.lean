import IonLiteral.Sink.ByteWriter
import IonLiteral.Unicode.Encoding

/-! # Strings, code units and bytes as sinks

A string grows up to a number of bytes of UTF-8 if one is set; what does not fit is refused as a
whole, and something shorter may still fit after it. A list of code units takes surrogate pairs as
they are. A byte writer takes text in the encoding of a charset, where UTF-16 goes out unit by unit,
the high byte of each first, and without a mark at the start.
-/

namespace IonLiteral

/-! ## Characters -/

namespace Sink

/-- Add text to a string that may not grow beyond `limit` bytes. -/
def extendString (limit : Option Nat) (text : String) : SinkM String Unit := do
  let held ← get
  if limit.any (· < held.utf8ByteSize + text.utf8ByteSize) then throw .characterTarget
  else set (held ++ text)

/-- A string as a sink. -/
def characters (escapesUnicode : Bool) (limit : Option Nat) : Sink String where
  escapesUnicode
  putAscii text := extendString limit (String.ofList text)
  putChar c := extendString limit (String.singleton c)

end Sink

/-! ## Code units -/

/-- The units for text known to be ASCII: one for each byte. -/
def asciiUnits (text : List Char) : List CodeUnit :=
  (Utf8.encode text).map UInt8.toUInt16

namespace Sink

/-- Add units at the end. -/
def extendUnits (us : List CodeUnit) : SinkM (Array CodeUnit) Unit :=
  modify fun held : Array CodeUnit => held ++ us

/-- A list of code units as a sink. -/
def units (escapesUnicode : Bool) : Sink (Array CodeUnit) where
  escapesUnicode
  putAscii text := extendUnits (asciiUnits text)
  putChar c := extendUnits (Utf16.encodeChar c)
  putPair lead trail := extendUnits [lead, trail]

end Sink

/-! ## Bytes -/

/-- The two bytes of a unit, the high one first. -/
def CodeUnit.bytes (u : CodeUnit) : List UInt8 :=
  [(u / 0x100).toUInt8, u.toUInt8]

namespace ByteWriter

/-- Write units one after the other. -/
def writeUnits (w : ByteWriter) (us : List CodeUnit) : SinkM (Array UInt8) Unit :=
  us.forM fun u => w.writeAll u.bytes

/-- Write text known to be ASCII. -/
def writeAscii (w : ByteWriter) (text : List Char) : Charset → SinkM (Array UInt8) Unit
  | .ascii | .utf8 => w.writeAll (Utf8.encode text)
  | .utf16 => w.writeUnits (asciiUnits text)

/-- Write any character. ASCII has no bytes for most of them. -/
def writeChar (w : ByteWriter) (c : Char) : Charset → SinkM (Array UInt8) Unit
  | .ascii =>
    if c.val < 0x80 then w.writeAll (String.utf8EncodeChar c) else throw (.unencodable c .ascii)
  | .utf8 => w.writeAll (String.utf8EncodeChar c)
  | .utf16 => w.writeUnits (Utf16.encodeChar c)

/-- Write a surrogate pair: as two units where units are written, and else as one character. -/
def writePair (w : ByteWriter) (lead trail : CodeUnit) : Charset → SinkM (Array UInt8) Unit
  | .utf16 => w.writeUnits [lead, trail]
  | charset => putCombined (fun c => w.writeChar c charset) lead trail

end ByteWriter

namespace Sink

/-- A byte writer as a sink, in the encoding of a charset. -/
def bytes (charset : Charset) (w : ByteWriter) : Sink (Array UInt8) where
  escapesUnicode := charset.escapesUnicode
  putAscii text := w.writeAscii text charset
  putChar c := w.writeChar c charset
  putPair lead trail := w.writePair lead trail charset

end Sink

end IonLiteral
