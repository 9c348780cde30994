import IonLiteral.Hex
import IonLiteral.Reader.Body
import IonLiteral.Unicode.Surrogate

/-! # Strings of JSON

JSON names fewer characters than Ion and gives all others by numbers of four digits. A character
beyond `0xFFFF` is given as its surrogate pair, in two escapes one right after the other; a surrogate
has no other use.
-/

namespace IonLiteral.Reader

/-- The character that a letter after a backslash names in JSON. -/
def jsonNamedChar? : Char → Option Char
  | '"' => some '"'
  | '\\' => some '\\'
  | '/' => some '/'
  | 'b' => some '\x08'
  | 'f' => some '\x0C'
  | 'n' => some '\n'
  | 'r' => some '\r'
  | 't' => some '\t'
  | _ => none

/-- Read the second half of a surrogate pair, from its backslash on. -/
def secondHalf? : List Char → Option (CodeUnit × List Char)
  | '\\' :: 'u' :: cs => do
    let (value, rest) ← Hex.read? 4 cs
    let trail : CodeUnit := UInt16.ofNat value
    if trail.isLowSurrogate then return (trail, rest) else none
  | _ => none

/-- Read the character that a unit is or begins. -/
def unitChar? (u : CodeUnit) (cs : List Char) : Option (Char × List Char) :=
  if u.isHighSurrogate then do
    let (trail, rest) ← secondHalf? cs
    let c ← CodePoint.toChar? (Surrogate.combine u trail)
    return (c, rest)
  else (CodePoint.toChar? u.toUInt32).map fun c => (c, cs)

/-- Read what follows a backslash in a string of JSON. -/
def jsonEscape? : List Char → Option (Char × List Char)
  | [] => none
  | c :: cs =>
    match jsonNamedChar? c with
    | some named => some (named, cs)
    | none =>
      if c = 'u' then do
        let (value, rest) ← Hex.read? 4 cs
        unitChar? (UInt16.ofNat value) rest
      else none

/-- Reading the second half of a pair makes the input shorter. -/
theorem length_of_secondHalf? {cs rest : List Char} {trail : CodeUnit}
    (read : secondHalf? cs = some (trail, rest)) : rest.length < cs.length := by
  unfold secondHalf? at read
  split at read
  · obtain ⟨⟨value, left⟩, digits, read⟩ := Option.bind_eq_some_iff.mp read
    have := Hex.length_of_readMore digits
    simp only at read
    split at read
    · cases read
      simp only [List.length_cons]
      omega
    · cases read
  · cases read

/-- Reading what a unit begins never makes the input longer. -/
theorem length_of_unitChar? {u : CodeUnit} {cs rest : List Char} {c : Char}
    (read : unitChar? u cs = some (c, rest)) : rest.length ≤ cs.length := by
  unfold unitChar? at read
  split at read
  · obtain ⟨⟨trail, left⟩, half, read⟩ := Option.bind_eq_some_iff.mp read
    obtain ⟨found, _, read⟩ := Option.bind_eq_some_iff.mp read
    cases read
    exact Nat.le_of_lt (length_of_secondHalf? half)
  · obtain ⟨found, _, read⟩ := Option.map_eq_some_iff.mp read
    cases read
    exact Nat.le_refl _

/-- Reading an escape in JSON makes the input shorter. -/
theorem length_of_jsonEscape? {cs rest : List Char} {c : Char}
    (read : jsonEscape? cs = some (c, rest)) : rest.length < cs.length := by
  cases cs with
  | nil => cases read
  | cons first cs =>
    simp only [jsonEscape?] at read
    split at read
    · cases read
      exact Nat.lt_succ_self _
    · split at read
      · obtain ⟨⟨value, left⟩, digits, read⟩ := Option.bind_eq_some_iff.mp read
        have used := Hex.length_of_readMore digits
        have left := length_of_unitChar? read
        simp only [List.length_cons] at left ⊢
        omega
      · cases read

/-- The text of a string of JSON. Only the control characters below the space have to be escaped. -/
def jsonText : Dialect Char where
  plain? c := if 0x20 ≤ c.val then some c else none
  escape? := jsonEscape?
  shorter := length_of_jsonEscape?

/-- Read a string of JSON. -/
def jsonString? (cs : List Char) : Option (List Char × List Char) :=
  quoted? jsonText ['"'] cs

end IonLiteral.Reader
