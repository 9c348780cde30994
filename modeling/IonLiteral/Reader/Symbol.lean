import IonLiteral.Lexical
import IonLiteral.Reader.Ion
import IonLiteral.Symbol

/-! # Symbols

A reader meets symbols where it expects a value, and among the items of an s-expression. In an
s-expression a run of operator characters is a symbol too, and a slash may open a comment there.
-/

namespace IonLiteral.Reader

/-- Split off the longest identifier, which may be empty. -/
def identifier (cs : List Char) : List Char × List Char :=
  match cs with
  | [] => ([], [])
  | c :: _ =>
    if Lexical.isIdentifierStart c.val then cs.span fun c => Lexical.isIdentifierPart c.val
    else ([], cs)

/-- Whether an identifier is a keyword or a symbol identifier, and so no symbol of that text. -/
def isReserved (token : List Char) : Bool :=
  Symbol.keywords.contains token ||
    match token with
    | '$' :: digits => !digits.isEmpty && digits.all fun c => Lexical.isDecimalDigit c.val
    | _ => false

/-- Read a symbol in single quotes. Three quotes in a row open a string instead. -/
def quotedSymbol? (cs : List Char) : Option (List Char × List Char) :=
  match cs with
  | '\'' :: '\'' :: '\'' :: _ => none
  | _ => quoted? (ionText false) ['\''] cs

/-- Read a symbol where a value is expected. The answer holds no text if the symbol is absent. -/
def symbol? (cs : List Char) : Option (Option (List Char) × List Char) :=
  match cs with
  | '\'' :: _ => (quotedSymbol? cs).map fun (text, rest) => (some text, rest)
  | _ =>
    let (token, rest) := identifier cs
    if token.isEmpty then none
    else if token = ['n', 'u', 'l', 'l'] then
      (following? ".symbol".toList rest).map fun rest => (none, rest)
    else if isReserved token then none
    else some (some token, rest)

/-- What a reader meets at the start of a token in an s-expression. -/
inductive Token where
  /-- Two slashes, or a slash and an asterisk. -/
  | comment
  /-- A symbol, with its text. -/
  | symbol (text : List Char)
  /-- A keyword or a symbol identifier. -/
  | reserved (text : List Char)
  deriving DecidableEq

/-- Read one token of an s-expression. The answer is the token and what follows it. -/
def token? (cs : List Char) : Option (Token × List Char) :=
  match cs with
  | [] => none
  | '/' :: '/' :: rest => some (.comment, rest)
  | '/' :: '*' :: rest => some (.comment, rest)
  | '\'' :: _ => (quotedSymbol? cs).map fun (text, rest) => (.symbol text, rest)
  | c :: _ =>
    if Lexical.isIdentifierStart c.val then
      let (text, rest) := identifier cs
      if isReserved text then some (.reserved text, rest) else some (.symbol text, rest)
    else if Lexical.isOperatorPart c.val then
      let (text, rest) := cs.span fun c => Lexical.isOperatorPart c.val
      some (.symbol text, rest)
    else none

end IonLiteral.Reader
