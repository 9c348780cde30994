import IonLiteral.Fault
import IonLiteral.Lexical
import IonLiteral.Text

/-! # Symbols

A symbol may stand without quotes when a reader takes its text for one token and for that symbol.
Identifiers may stand so anywhere and operators inside an s-expression. Keywords and symbol
identifiers look like identifiers and mean something else, so as symbols they need quotes.
-/

namespace IonLiteral.Symbol

/-- What a reader would take the bare text of a symbol for. -/
inductive Kind where
  | identifier
  | operator
  /-- Something other than this symbol. -/
  | quoted
  deriving DecidableEq

/-- The name of a kind. -/
def Kind.name : Kind → String
  | identifier => "identifier"
  | operator => "operator"
  | quoted => "quoted"

/-- The identifiers that are values of their own. -/
def keywords : List (List Char) :=
  [['t', 'r', 'u', 'e'], ['f', 'a', 'l', 's', 'e'], ['n', 'u', 'l', 'l'], ['n', 'a', 'n']]

/-- Whether units are a symbol identifier: a dollar sign and a number. -/
def isSymbolId : List CodeUnit → Bool
  | u :: digits =>
    u.toUInt32 == '$'.val && !digits.isEmpty && digits.all fun d => Lexical.isDecimalDigit d.toUInt32
  | [] => false

/-- Whether units are a keyword or a symbol identifier. -/
def isReserved (us : List CodeUnit) : Bool :=
  isSymbolId us || keywords.any fun keyword => Utf16.encode keyword == us

/-- Whether a unit may stand in an identifier without quotes: it is no quote, it is printable, and
identifiers are made of it. The last of these entails the others. -/
def isBareIdentifierUnit (u : CodeUnit) : Bool :=
  u.toUInt32 != '\''.val && u.toUInt32 != '"'.val && CodePoint.isBetween ' ' '~' u.toUInt32 &&
    Lexical.isIdentifierPart u.toUInt32

/-- The kind of a symbol from its units. There has to be at least one. The first unit says which
class the units may belong to, and then all of them are looked at, the first once more. -/
def kindOfUnits : List CodeUnit → Except Fault Kind
  | [] => .error .emptySymbol
  | u :: rest =>
    if isReserved (u :: rest) then .ok .quoted
    else if Lexical.isIdentifierStart u.toUInt32 then
      if (u :: rest).all isBareIdentifierUnit then .ok .identifier else .ok .quoted
    else if Lexical.isOperatorPart u.toUInt32 then
      if (u :: rest).all fun r => Lexical.isOperatorPart r.toUInt32 then .ok .operator
      else .ok .quoted
    else .ok .quoted

/-- Whether a text is a keyword or a symbol identifier. -/
def isKeyword (text : Text) : Bool :=
  isReserved text.codeUnits

/-- The kind of a symbol. -/
def kind (text : Text) : Except Fault Kind :=
  kindOfUnits text.codeUnits

/-- Whether a symbol needs quotes, where operators get them or not. -/
def needsQuotes (text : Text) (quoteOperators : Bool) : Except Fault Bool :=
  match kind text with
  | .error fault => .error fault
  | .ok .identifier => .ok false
  | .ok .operator => .ok quoteOperators
  | .ok .quoted => .ok true

end IonLiteral.Symbol
