/-! # Charsets

The encoding of the place where text ends up. It decides whether characters outside ASCII can be
written as they are or have to be escaped.
-/

namespace IonLiteral

/-- The encodings that text can be written in. -/
inductive Charset where
  | ascii
  | utf8
  | utf16
  deriving DecidableEq

namespace Charset

/-- The name a charset is commonly known by. -/
def label : Charset → String
  | ascii => "US-ASCII"
  | utf8 => "UTF-8"
  | utf16 => "UTF-16"

/-- The name a charset has in a configuration. -/
def name : Charset → String
  | ascii => "ascii"
  | utf8 => "utf8"
  | utf16 => "utf16"

/-- The charset with a given name. Case matters. -/
def ofName? : String → Option Charset
  | "ascii" => some ascii
  | "utf8" => some utf8
  | "utf16" => some utf16
  | _ => none

/-- Charsets are found by their names. -/
@[simp]
theorem ofName?_name (charset : Charset) : ofName? charset.name = some charset := by
  cases charset <;> rfl

/-- Only ASCII cannot hold every character, so only there is everything above `0x7E` escaped. -/
def escapesUnicode : Charset → Bool
  | ascii => true
  | utf8 | utf16 => false

end Charset

end IonLiteral
