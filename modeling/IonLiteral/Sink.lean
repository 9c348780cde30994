import IonLiteral.Fault

/-! # Sinks

A sink is where text goes. The writers know it by three operations and by one constant: whether it
can hold ASCII only. What the sink keeps is the state of the monad. A failing operation still yields
a state, so nothing that went out before a fault is lost.
-/

namespace IonLiteral

/-- Writing to a sink that keeps a `σ`. -/
abbrev SinkM (σ : Type) := EStateM Fault σ

/-- Put a surrogate pair as the one character it stands for. -/
def putCombined {σ : Type} (putChar : Char → SinkM σ Unit) (lead trail : CodeUnit) :
    SinkM σ Unit :=
  let cp := Surrogate.combine lead trail
  match cp.toChar? with
  | some c => putChar c
  | none => throw (.notScalar cp)

/-- A place that text goes to. -/
structure Sink (σ : Type) where
  /-- Whether the sink holds ASCII only, so that every other character has to be escaped. -/
  escapesUnicode : Bool
  /-- Put text that needs no further escaping. The writers pass ASCII only. -/
  putAscii : List Char → SinkM σ Unit
  /-- Put one character as it is. -/
  putChar : Char → SinkM σ Unit
  /-- Put a surrogate pair as it is. A sink that knows no units takes the character. -/
  putPair : CodeUnit → CodeUnit → SinkM σ Unit := putCombined putChar

/-- One operation on a sink, with what is put. -/
inductive Call where
  | ascii (text : List Char)
  | char (c : Char)
  | pair (lead trail : CodeUnit)
  deriving DecidableEq

namespace Sink

variable {σ : Type}

/-- Carry out one operation. -/
def perform (s : Sink σ) : Call → SinkM σ Unit
  | .ascii text => s.putAscii text
  | .char c => s.putChar c
  | .pair lead trail => s.putPair lead trail

/-- Carry out operations in order, up to the first that fails. -/
def performAll (s : Sink σ) (calls : List Call) : SinkM σ Unit :=
  calls.forM s.perform

end Sink

end IonLiteral
