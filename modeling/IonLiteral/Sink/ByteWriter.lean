import IonLiteral.Sink

/-! # Byte writers

A writer of bytes may take fewer bytes than it is offered, because it takes only so many at a time or
because it is nearly full. Whoever wants all bytes written offers the rest again until none is left.
-/

namespace IonLiteral

/-- How a writer takes bytes. What it has taken is its state and stands apart. -/
structure ByteWriter where
  /-- The most bytes it takes in all. -/
  limit : Option Nat
  /-- The most bytes it takes at a time. -/
  chunk : Option Nat
  /-- A full writer fails, or else takes no bytes without saying why. -/
  silentWhenFull : Bool

namespace ByteWriter

/-- A writer that takes all it is offered. -/
def unlimited : ByteWriter := ⟨none, none, false⟩

/-- The first bytes up to a bound, or all of them where there is none. -/
def firstOf (bound : Option Nat) (bytes : List UInt8) : List UInt8 :=
  match bound with
  | none => bytes
  | some bound => bytes.take bound

/-- Whether a writer that holds so many bytes takes no more. -/
def isFull (w : ByteWriter) (held : Nat) : Bool :=
  w.limit.any (· ≤ held)

/-- What a writer that holds so many bytes takes at once of those it is offered. -/
def batch (w : ByteWriter) (held : Nat) (bytes : List UInt8) : List UInt8 :=
  firstOf (w.limit.map (· - held)) (firstOf w.chunk bytes)

/-- Offer bytes once. The answer is the number of bytes taken. -/
def offer (w : ByteWriter) (bytes : List UInt8) : SinkM (Array UInt8) Nat := do
  let held ← get
  if w.isFull held.size && !w.silentWhenFull then throw (.byteTarget "closed")
  else
    let taken := w.batch held.size bytes
    set (held ++ taken)
    return taken.length

/-- Offer bytes until all are taken. No bytes are never offered, and a writer that takes none of
some is given up. -/
def writeAll (w : ByteWriter) : List UInt8 → SinkM (Array UInt8) Unit
  | [] => pure ()
  | byte :: bytes => do
    match ← w.offer (byte :: bytes) with
    | 0 => throw (.byteTarget "failed to write whole buffer")
    | taken + 1 => w.writeAll (bytes.drop taken)
termination_by bytes => bytes.length
decreasing_by
  simp only [List.length_drop, List.length_cons]
  omega

end ByteWriter

end IonLiteral
