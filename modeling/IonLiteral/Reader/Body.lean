/-! # Reading bodies

What stands between delimiters is read character by character until the closing delimiter. A
backslash starts an escape and any other character has to be allowed as it is. The kinds of text
differ in the escapes they know, in the characters they allow, and in what a character stands for.
-/

namespace IonLiteral.Reader

/-- How one kind of text is read into a list of `α`. -/
structure Dialect (α : Type) where
  /-- What a character stands for that is not part of an escape, if it is allowed. -/
  plain? : Char → Option α
  /-- What an escape stands for, and what follows it, given what follows the backslash. -/
  escape? : List Char → Option (α × List Char)
  /-- Reading an escape uses up some of the input. -/
  shorter : ∀ {cs : List Char} {a : α} {rest : List Char},
    escape? cs = some (a, rest) → rest.length < cs.length

/-- What follows a given beginning, if that is how the input begins. -/
def following? : (start cs : List Char) → Option (List Char)
  | [], cs => some cs
  | _ :: _, [] => none
  | a :: start, c :: cs => if a = c then following? start cs else none

/-- A beginning that is there is found, and what is behind it is left. -/
@[simp]
theorem following?_append (start cs : List Char) : following? start (start ++ cs) = some cs := by
  induction start with
  | nil => rfl
  | cons a start ih => simpa [following?] using ih

variable {α : Type}

/-- Put what was read first in front of what was read after it. -/
def consRead (a : α) (read : List α × List Char) : List α × List Char :=
  (a :: read.1, read.2)

/-- Read up to the closing delimiter. The answer is what was read and what follows the delimiter. -/
def body? (dialect : Dialect α) (delimiter : List Char) (cs : List Char) :
    Option (List α × List Char) :=
  match following? delimiter cs with
  | some rest => some ([], rest)
  | none =>
    match cs with
    | [] => none
    | c :: cs =>
      if c = '\\' then
        match _ : dialect.escape? cs with
        | none => none
        | some (a, rest) => (body? dialect delimiter rest).map (consRead a)
      else
        match dialect.plain? c with
        | none => none
        | some a => (body? dialect delimiter cs).map (consRead a)
termination_by cs.length
decreasing_by
  · exact Nat.lt_succ_of_lt (dialect.shorter ‹_›)
  · exact Nat.lt_succ_self _

/-- Read a value that starts with its opening delimiter. -/
def quoted? (dialect : Dialect α) (delimiter : List Char) (cs : List Char) :
    Option (List α × List Char) :=
  match following? delimiter cs with
  | none => none
  | some cs => body? dialect delimiter cs

end IonLiteral.Reader
