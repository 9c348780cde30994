import IonLiteral.Unicode.CodePoint

/-! # Lexical classes

The classes of the Ion text grammar that decide how a token starts, continues and ends. All of them
are made of ASCII characters, so surrogates and code points above `0x7F` belong to none.
-/

namespace IonLiteral.Lexical

/-- The ASCII letters of both cases. -/
def isLetter (cp : CodePoint) : Bool :=
  cp.isBetween 'a' 'z' || cp.isBetween 'A' 'Z'

/-- The digits of base ten. -/
def isDecimalDigit (cp : CodePoint) : Bool :=
  cp.isBetween '0' '9'

/-- An identifier starts with a letter, an underscore or a dollar sign. -/
def isIdentifierStart (cp : CodePoint) : Bool :=
  isLetter cp || cp == '_'.val || cp == '$'.val

/-- An identifier goes on with what may start it and with decimal digits. -/
def isIdentifierPart (cp : CodePoint) : Bool :=
  isIdentifierStart cp || isDecimalDigit cp

/-- The characters of operator symbols. -/
def operatorChars : List Char :=
  ['<', '>', '=', '+', '-', '*', '&', '^', '%', '~', '/', '?', '.', ';', '!', '|', '@', '\x60', '#']

/-- An operator is made of these and nothing else. -/
def isOperatorPart (cp : CodePoint) : Bool :=
  operatorChars.any fun c => c.val == cp

/-- Space, tab, line feed and carriage return. -/
def isWhitespace (cp : CodePoint) : Bool :=
  cp == ' '.val || cp == '\t'.val || cp == '\n'.val || cp == '\r'.val

/-- The brackets, the comma and the quotes: punctuation that ends a number. -/
def numberEnders : List Char :=
  ['{', '}', '[', ']', '(', ')', ',', '"', '\'']

/-- Whether a number may be followed by this, where `none` is the end of the input. A slash is not
among them: it ends a number only when it opens a comment, which takes a second character to see. -/
def isNumericStop : Option CodePoint → Bool
  | none => true
  | some cp => isWhitespace cp || numberEnders.any fun c => c.val == cp

/-- Whether a code point is a digit in base eight, ten or sixteen. No other base has digits. -/
def isDigit (cp : CodePoint) (radix : Nat) : Bool :=
  if cp.isBetween '0' '7' then radix == 8 || radix == 10 || radix == 16
  else if cp.isBetween '8' '9' then radix == 10 || radix == 16
  else if cp.isBetween 'a' 'f' || cp.isBetween 'A' 'F' then radix == 16
  else false

end IonLiteral.Lexical
