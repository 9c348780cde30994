import IonLiteral.Sink

/-! # Recorders and scripts

A recorder keeps the operations themselves. It shows how a writer drives a sink, where other sinks
show only what the operations add up to. A script is what a recorder is left with: the operations in
their order, and how writing ends once they are all carried out. It depends on the sink only through
what the sink can hold. Sinks differ in what they make of a script, and in how much of it they let
happen.
-/

namespace IonLiteral

namespace Sink

/-- Keep one more operation, unless there are `limit` of them already. -/
def record (limit : Option Nat) (call : Call) : SinkM (Array Call) Unit := do
  let calls ← get
  if limit.any (· ≤ calls.size) then throw (.custom "record is full")
  else set (calls.push call)

/-- A list of operations as a sink. It keeps surrogate pairs, or else takes the character. -/
def recorder (escapesUnicode keepsPairs : Bool) (limit : Option Nat) : Sink (Array Call) where
  escapesUnicode
  putAscii text := record limit (.ascii text)
  putChar c := record limit (.char c)
  putPair lead trail :=
    if keepsPairs then record limit (.pair lead trail)
    else putCombined (fun c => record limit (.char c)) lead trail

end Sink

/-! ## Scripts -/

/-- Operations, and the fault after the last of them if there is one. -/
structure Script where
  calls : List Call
  ending : Except Fault Unit

/-- Carry out a script: the operations up to the first that fails, and then the ending. -/
def Script.run {σ : Type} (s : Sink σ) (script : Script) : SinkM σ Unit := do
  s.performAll script.calls
  match script.ending with
  | .ok _ => pure ()
  | .error fault => throw fault

/-- The script that a recorder keeps of a writer. -/
def scriptOf (escapesUnicode : Bool) (write : Sink (Array Call) → SinkM (Array Call) Unit) :
    Script :=
  match write (.recorder escapesUnicode true none) #[] with
  | .ok _ calls => ⟨calls.toList, .ok ()⟩
  | .error fault calls => ⟨calls.toList, .error fault⟩

namespace Call

/-- The characters that an operation adds to the text. -/
def chars : Call → List Char
  | ascii text => text
  | char c => [c]
  | pair lead trail => (Surrogate.combine lead trail).toChar?.toList

/-- Put an operation in front, joined to the next if both put ASCII. -/
def consMerged : Call → List Call → List Call
  | ascii text, ascii more :: calls => ascii (text ++ more) :: calls
  | call, calls => call :: calls

/-- The same operations with neighbouring pieces of ASCII joined. -/
def merged (calls : List Call) : List Call :=
  calls.foldr consMerged []

end Call

namespace Script

/-- The text that a script writes. -/
def chars (script : Script) : List Char :=
  script.calls.flatMap Call.chars

end Script

end IonLiteral
