import IonLiteral.Escape
import IonLiteral.Form
import IonLiteral.Unicode.Surrogate

/-! # Spellings

How one character is written in a form: as it is, or as escapes. The rule here goes by the character
alone and consults no table. It agrees with the escape tables.
-/

namespace IonLiteral

/-- How one character is written. -/
inductive Spelling where
  /-- As it is. -/
  | itself
  /-- As escapes: one, or two for the halves of a surrogate pair. -/
  | escaped (escapes : List Escape)
  deriving DecidableEq

namespace Spelling

/-- The letter that names a character after a backslash. JSON names neither NUL nor bell nor vertical
tab, and a quote is named only where it could be taken for the delimiter. -/
def letter? (form : Form) (c : Char) : Option Char :=
  if c = '\x00' then if form.isJson then none else some '0'
  else if c = '\x07' then if form.isJson then none else some 'a'
  else if c = '\x08' then some 'b'
  else if c = '\t' then some 't'
  else if c = '\n' then if form = .longString then none else some 'n'
  else if c = '\x0B' then if form.isJson then none else some 'v'
  else if c = '\x0C' then some 'f'
  else if c = '\r' then some 'r'
  else if c = '\\' then some '\\'
  else if c = '"' then
    match form with
    | .shortString | .clob | .json => some '"'
    | .longString | .symbol => none
  else if c = '\'' then
    match form with
    | .longString | .symbol => some '\''
    | .shortString | .clob | .json => none
  else none

/-- The escape by number, of the least width that there is for it. Beyond `0xFFFF` JSON has none, and
escapes the surrogate pair half by half. -/
def byNumber (form : Form) (c : Char) : List Escape :=
  if c.val < 0x100 then if form.isJson then [.u c.toNat] else [.x c.toNat]
  else if c.val < 0x10000 then [.u c.toNat]
  else if form.isJson then
    [.u (Surrogate.split c.val).1.toNat, .u (Surrogate.split c.val).2.toNat]
  else [.wide c.toNat]

/-- Whether a character is a control character of ASCII that has to be escaped for every sink. A line
feed in a long string does not. -/
def isControl (form : Form) (c : Char) : Bool :=
  (c.val < 0x20 || c.val == 0x7F) && !(form == .longString && c == '\n')

/-- How a character is written in a form, for a sink that can or cannot hold all of Unicode. -/
def ofChar (form : Form) (escapesUnicode : Bool) (c : Char) : Spelling :=
  match letter? form c with
  | some letter => escaped [.named letter]
  | none =>
    if isControl form c || (escapesUnicode && 0x80 ≤ c.val) then escaped (byNumber form c)
    else itself

end Spelling

end IonLiteral
