import IonLiteral.Charset
import IonLiteral.Hex
import IonLiteral.Unicode.Encoding

/-! # Faults

The reasons why writing stops. Some lie in the text and some in the target; what was written before
either kind stays written.
-/

namespace IonLiteral

/-- A reason why writing stops. -/
inductive Fault where
  /-- A symbol has no text. -/
  | emptySymbol
  /-- The text holds a surrogate without its partner. -/
  | unmatchedSurrogate (found : Unmatched)
  /-- A code point is a surrogate or lies beyond the last character. -/
  | notScalar (cp : CodePoint)
  /-- A target of characters refused what it was given. -/
  | characterTarget
  /-- A target of bytes failed, for its own reason. -/
  | byteTarget (reason : String)
  /-- The charset of the target has no bytes for a character. -/
  | unencodable (c : Char) (charset : Charset)
  /-- Any other reason, given by the target. -/
  | custom (reason : String)
  deriving DecidableEq

/-- The word for a half of a surrogate pair. -/
def Half.name : Half → String
  | high => "high"
  | low => "low"

namespace Fault

/-- The text shown to a person. -/
def message : Fault → String
  | emptySymbol => "Symbols must contain at least one character"
  | unmatchedSurrogate ⟨half, u, index⟩ =>
    "text is invalid UTF-16. It contains an unmatched " ++ half.name ++ " surrogate 0x" ++
      Hex.minimal u.toNat ++ " at index " ++ toString index
  | notScalar cp => "0x" ++ Hex.minimal cp.toNat ++ " is not a Unicode scalar value"
  | characterTarget => "Formatter error: an error occurred when formatting an argument"
  | byteTarget reason => "IO error: " ++ reason
  | unencodable c charset =>
    "Error: U+" ++ Hex.upperFour c.toNat ++ " cannot be encoded in " ++ charset.label
  | custom reason => "Error: " ++ reason

/-- Whether the target itself failed. A character that its charset cannot hold and a reason of its
own making do not count. -/
def isTargetFailure : Fault → Bool
  | characterTarget | byteTarget _ => true
  | emptySymbol | unmatchedSurrogate _ | notScalar _ | unencodable _ _ | custom _ => false

/-- Whether a fault has no kind of its own and is told by a text alone. A character that a charset
cannot hold is one of these, and so is every reason that a target makes up. -/
def isCustom : Fault → Bool
  | unencodable _ _ | custom _ => true
  | emptySymbol | unmatchedSurrogate _ | notScalar _ | characterTarget | byteTarget _ => false

end Fault

end IonLiteral
