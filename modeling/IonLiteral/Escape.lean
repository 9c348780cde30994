import IonLiteral.Form
import IonLiteral.Hex

/-! # Escapes

An escape is a backslash followed by a letter that names a character, or by a marker and the
character's number in hexadecimal digits. Each form has a table from the numbers below `0x100` to
escapes. A number without an entry stands for itself. The tables of long strings and of symbols
differ from the one of short strings only in the line feed and the quotes; the table of JSON names
fewer characters and has no escape of two digits.
-/

namespace IonLiteral

/-- What stands after the backslash. -/
inductive Escape where
  /-- A single letter or punctuation mark. -/
  | named (letter : Char)
  /-- A marker and the last `width` hexadecimal digits of a number. -/
  | numeric (marker : Char) (width value : Nat)
  deriving DecidableEq

namespace Escape

/-- Two digits, for numbers below `0x100`. JSON has no such escape. -/
def x (value : Nat) : Escape := numeric 'x' 2 value

/-- Four digits, for numbers below `0x10000`. -/
def u (value : Nat) : Escape := numeric 'u' 4 value

/-- Eight digits, for numbers from `0x10000` up. JSON has no such escape. -/
def wide (value : Nat) : Escape := numeric 'U' 8 value

/-- The characters of an escape, the backslash included. -/
def text : Escape → List Char
  | named letter => ['\\', letter]
  | numeric marker width value => '\\' :: marker :: Hex.fixed width value

/-! ## Tables -/

/-- The escape of each number below `0x100` that cannot stand for itself. -/
abbrev Table := UInt8 → Option Escape

namespace Table

/-- Another entry, or none, for one number. -/
def set (table : Table) (value : UInt8) (entry : Option Escape) : Table :=
  fun v => if v = value then entry else table v

/-- Control characters, DEL and everything above it are never written as they are. -/
def isUnprintable (value : UInt8) : Bool :=
  value < 0x20 || 0x7F ≤ value

/-- The table of short strings and of clobs. -/
def strings : Table
  | 0x00 => some (named '0')
  | 0x07 => some (named 'a')
  | 0x08 => some (named 'b')
  | 0x09 => some (named 't')
  | 0x0A => some (named 'n')
  | 0x0B => some (named 'v')
  | 0x0C => some (named 'f')
  | 0x0D => some (named 'r')
  | 0x22 => some (named '"')
  | 0x5C => some (named '\\')
  | value => if isUnprintable value then some (x value.toNat) else none

/-- The table of long strings: line feeds and double quotes stand for themselves. -/
def longStrings : Table :=
  ((strings.set 0x0A none).set 0x22 none).set 0x27 (some (named '\''))

/-- The table of symbols: double quotes stand for themselves. -/
def symbols : Table :=
  (strings.set 0x22 none).set 0x27 (some (named '\''))

/-- The table of JSON strings. -/
def json : Table
  | 0x08 => some (named 'b')
  | 0x09 => some (named 't')
  | 0x0A => some (named 'n')
  | 0x0C => some (named 'f')
  | 0x0D => some (named 'r')
  | 0x22 => some (named '"')
  | 0x5C => some (named '\\')
  | value => if isUnprintable value then some (u value.toNat) else none

end Table

end Escape

namespace Form

/-- The table of a form. -/
def table : Form → Escape.Table
  | shortString | clob => .strings
  | longString => .longStrings
  | symbol => .symbols
  | json => .json

/-- The escape of a number in a form. -/
def escape? (form : Form) (value : UInt8) : Option Escape :=
  form.table value

/-- Whether a number has an escape in a form. -/
def needsEscape (form : Form) (value : UInt8) : Bool :=
  (form.escape? value).isSome

end Form

end IonLiteral
