import IonLiteral.Charset
import IonLiteral.Form

/-! # Options

What a caller may choose about the output, and how the choices are read from a configuration and
written back to one. A configuration spells them as they are written back: options are a group with
their keys, and a charset or a form is its name. A format that has other spellings of the same values
turns them into these first.
-/

namespace IonLiteral

/-- What a caller may choose about the output. -/
structure Options where
  /-- The encoding of the target. -/
  charset : Charset
  /-- Whether symbols made of operator characters get quotes. They can do without inside an
  s-expression only. -/
  quoteOperators : Bool
  deriving DecidableEq

/-- A value of a configuration. -/
inductive Setting where
  | text (s : String)
  | flag (b : Bool)
  | group (entries : List (String × Setting))
  /-- Something that holds neither options nor a name nor a flag. -/
  | other

namespace Charset

/-- The charset that a setting names. -/
def ofSetting? : Setting → Option Charset
  | .text s => ofName? s
  | _ => none

end Charset

namespace Form

/-- The form that a setting names. -/
def ofSetting? : Setting → Option Form
  | .text s => ofName? s
  | _ => none

end Form

namespace Options

/-- UTF-8, with quotes around operators. -/
def standard : Options := ⟨.utf8, true⟩

/-- ASCII, with quotes around operators. -/
def ascii : Options := { standard with charset := .ascii }

/-- The same options for another charset. -/
def withCharset (options : Options) (charset : Charset) : Options :=
  { options with charset }

/-- The same options with another choice about operators. -/
def withQuoteOperators (options : Options) (quoteOperators : Bool) : Options :=
  { options with quoteOperators }

/-- The flag that a setting holds. -/
def flag? : Setting → Option Bool
  | .flag b => some b
  | _ => none

/-- Read an entry of a group by `read?`. A missing entry takes the standard value; one that is there
has to be readable, and may not be there twice. -/
def entry? {α : Type} (entries : List (String × Setting)) (key : String) (missing : α)
    (read? : Setting → Option α) : Option α :=
  match entries.filter fun entry => entry.1 == key with
  | [] => some missing
  | [(_, setting)] => read? setting
  | _ => none

/-- The options that a configuration asks for. Only a group holds options, and its entries with other
keys are ignored. -/
def ofSetting? : Setting → Option Options
  | .group entries => do
    let charset ← entry? entries "charset" standard.charset Charset.ofSetting?
    let quoteOperators ← entry? entries "quote_operators" standard.quoteOperators flag?
    return ⟨charset, quoteOperators⟩
  | _ => none

/-- The configuration that asks for given options. Both entries are always there. -/
def toSetting (options : Options) : Setting :=
  .group [("charset", .text options.charset.name),
    ("quote_operators", .flag options.quoteOperators)]

/-- Options are read back from the configuration that asks for them. -/
@[simp]
theorem ofSetting?_toSetting (options : Options) : ofSetting? options.toSetting = some options := by
  rcases options with ⟨charset, quoteOperators⟩
  cases charset <;> rfl

end Options

end IonLiteral
