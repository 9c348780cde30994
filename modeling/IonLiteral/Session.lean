import IonLiteral.Rendering

/-! # Sessions

A session is a series of steps on one sink. A step that fails does not end the session, and what it
wrote before it failed stays written.
-/

namespace IonLiteral

/-- One step of a session: a rendering, or an operation of the sink itself. -/
inductive Step where
  | render (rendering : Rendering)
  | put (call : Call)

namespace Step

variable {σ : Type}

/-- Carry out a step. -/
def run (s : Sink σ) : Step → SinkM σ Unit
  | render rendering => rendering.write s
  | put call => s.perform call

end Step

/-- How a step ended, and what the sink kept after it. -/
structure Outcome (σ : Type) where
  result : Except Fault Unit
  kept : σ

namespace Session

variable {σ : Type}

/-- Carry out one step on what a sink kept. -/
def step (s : Sink σ) (kept : σ) (step : Step) : Outcome σ :=
  match step.run s kept with
  | .ok _ kept => ⟨.ok (), kept⟩
  | .error fault kept => ⟨.error fault, kept⟩

/-- Carry out steps one after the other, whether they fail or not. -/
def run (s : Sink σ) (kept : σ) : List Step → List (Outcome σ)
  | [] => []
  | first :: rest =>
    let outcome := step s kept first
    outcome :: run s outcome.kept rest

/-- What the sink keeps at the end. -/
def final (kept : σ) (outcomes : List (Outcome σ)) : σ :=
  (outcomes.getLast?.map Outcome.kept).getD kept

end Session

end IonLiteral
