import IonLiteral.Hex
import IonLiteral.Reader.Body
import IonLiteral.Unicode.CodePoint

/-! # Strings and clobs of Ion

Ion names some characters by a letter after a backslash and all others by number. In the text of a
clob a number is a byte, so it has two digits. Control characters have to be escaped, but for line
feeds between triple quotes.
-/

namespace IonLiteral.Reader

/-- The character that a letter after a backslash names. -/
def namedChar? : Char → Option Char
  | '0' => some '\x00'
  | 'a' => some '\x07'
  | 'b' => some '\x08'
  | 't' => some '\t'
  | 'n' => some '\n'
  | 'v' => some '\x0B'
  | 'f' => some '\x0C'
  | 'r' => some '\r'
  | '\\' => some '\\'
  | '"' => some '"'
  | '\'' => some '\''
  | _ => none

/-- The number of digits after a marker. -/
def width? : Char → Option Nat
  | 'x' => some 2
  | 'u' => some 4
  | 'U' => some 8
  | _ => none

/-- Whether a character may stand as it is between quotes of a kind. -/
def isLiteral (multiline : Bool) (c : Char) : Bool :=
  (0x20 ≤ c.val && c.val != 0x7F) || (multiline && c == '\n')

/-- Read what follows a backslash in a string or a symbol. -/
def ionEscape? : List Char → Option (Char × List Char)
  | [] => none
  | c :: cs =>
    match namedChar? c with
    | some named => some (named, cs)
    | none => do
      let width ← width? c
      let (value, rest) ← Hex.read? width cs
      let found ← CodePoint.toChar? (UInt32.ofNat value)
      return (found, rest)

/-- Reading an escape in a string or a symbol makes the input shorter. -/
theorem length_of_ionEscape? {cs rest : List Char} {c : Char}
    (read : ionEscape? cs = some (c, rest)) : rest.length < cs.length := by
  cases cs with
  | nil => cases read
  | cons first cs =>
    simp only [ionEscape?] at read
    split at read
    · cases read
      exact Nat.lt_succ_self _
    · obtain ⟨width, _, read⟩ := Option.bind_eq_some_iff.mp read
      obtain ⟨⟨value, left⟩, digits, read⟩ := Option.bind_eq_some_iff.mp read
      obtain ⟨found, _, read⟩ := Option.bind_eq_some_iff.mp read
      cases read
      have := Hex.length_of_readMore digits
      simp only [List.length_cons]
      omega

/-- Text between double quotes or single quotes, or with line feeds between triple quotes. -/
def ionText (multiline : Bool) : Dialect Char where
  plain? c := if isLiteral multiline c then some c else none
  escape? := ionEscape?
  shorter := length_of_ionEscape?

/-- Read what follows a backslash in a clob. -/
def clobEscape? : List Char → Option (UInt8 × List Char)
  | [] => none
  | c :: cs =>
    match namedChar? c with
    | some named => some (named.val.toUInt8, cs)
    | none =>
      if c = 'x' then (Hex.read? 2 cs).map fun (value, rest) => (UInt8.ofNat value, rest)
      else none

/-- Reading an escape in a clob makes the input shorter. -/
theorem length_of_clobEscape? {cs rest : List Char} {byte : UInt8}
    (read : clobEscape? cs = some (byte, rest)) : rest.length < cs.length := by
  cases cs with
  | nil => cases read
  | cons first cs =>
    simp only [clobEscape?] at read
    split at read
    · cases read
      exact Nat.lt_succ_self _
    · split at read
      · obtain ⟨⟨value, left⟩, digits, read⟩ := Option.map_eq_some_iff.mp read
        cases read
        have := Hex.length_of_readMore digits
        simp only [List.length_cons]
        omega
      · cases read

/-- The text of a clob between double quotes, or with line feeds between triple quotes. Of the
characters only those of ASCII may stand as they are. -/
def clobText (multiline : Bool) : Dialect UInt8 where
  plain? c := if isLiteral multiline c && c.val < 0x7F then some c.val.toUInt8 else none
  escape? := clobEscape?
  shorter := length_of_clobEscape?

/-- Read a string between double quotes. -/
def string? (cs : List Char) : Option (List Char × List Char) :=
  quoted? (ionText false) ['"'] cs

/-- Read a string between triple quotes. -/
def longString? (cs : List Char) : Option (List Char × List Char) :=
  quoted? (ionText true) ['\'', '\'', '\''] cs

/-- Read a clob between double quotes. -/
def clob? (cs : List Char) : Option (List UInt8 × List Char) :=
  quoted? (clobText false) ['"'] cs

/-- Read a clob between triple quotes. -/
def longClob? (cs : List Char) : Option (List UInt8 × List Char) :=
  quoted? (clobText true) ['\'', '\'', '\''] cs

end IonLiteral.Reader
