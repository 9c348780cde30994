/-! # Forms

The places in a document where text is written. Each has its own delimiter and its own idea of which
characters cannot stand for themselves.
-/

namespace IonLiteral

/-- The forms that text is written in. -/
inductive Form where
  /-- A string between double quotes. -/
  | shortString
  /-- A string between triple single quotes, with its line feeds as they are. -/
  | longString
  /-- A symbol between single quotes. -/
  | symbol
  /-- Bytes between double quotes. -/
  | clob
  /-- A string of JSON. -/
  | json
  deriving DecidableEq

namespace Form

/-- The name a form has in a configuration. -/
def name : Form → String
  | shortString => "short_string"
  | longString => "long_string"
  | symbol => "symbol"
  | clob => "clob"
  | json => "json"

/-- The form with a given name. Case matters. -/
def ofName? : String → Option Form
  | "short_string" => some shortString
  | "long_string" => some longString
  | "symbol" => some symbol
  | "clob" => some clob
  | "json" => some json
  | _ => none

/-- Forms are found by their names. -/
@[simp]
theorem ofName?_name (form : Form) : ofName? form.name = some form := by
  cases form <;> rfl

/-- Whether the escapes are those of JSON. -/
def isJson : Form → Bool
  | json => true
  | shortString | longString | symbol | clob => false

end Form

/-- How a value is written as a whole: the form of its text, what stands on both sides of it, and
what is written when there is no value. -/
structure Quoting where
  form : Form
  delimiter : List Char
  absent : List Char

namespace Quoting

/-- A string on one line. -/
def string : Quoting := ⟨.shortString, ['"'], "null.string".toList⟩

/-- A string that may run over several lines. -/
def longString : Quoting := ⟨.longString, ['\'', '\'', '\''], "null.string".toList⟩

/-- A string of JSON. -/
def json : Quoting := ⟨.json, ['"'], "null".toList⟩

/-- A symbol in quotes. -/
def symbol : Quoting := ⟨.symbol, ['\''], "null.symbol".toList⟩

/-- The bytes of a clob on one line. -/
def clob : Quoting := ⟨.clob, ['"'], "null.clob".toList⟩

/-- The bytes of a clob that may run over several lines. -/
def longClob : Quoting := ⟨.longString, ['\'', '\'', '\''], "null.clob".toList⟩

/-- The bytes of a clob for a reader of JSON. -/
def jsonClob : Quoting := ⟨.json, ['"'], "null".toList⟩

end Quoting

end IonLiteral
