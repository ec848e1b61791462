import Polyphony.Signal.Wiring

/-!
# Envelopes

An envelope rises from zero to one (attack), falls to a level (decay), holds it (sustain) and falls
to zero (release). It is the sum of four gated lines laid end to end; gates are half-open, so at
every time at most one of them is open.
-/

namespace Polyphony

open Scalar Wiring

variable {α : Type} [Scalar α]

/-- The lengths of the four stages in seconds, and the level of the third. -/
structure Envelope (α : Type) where
  attack : α
  decay : α
  sustain : α
  release : α
  level : α

namespace Envelope

/-- The stages by name, in the order in which they are checked. -/
def stages (e : Envelope α) : List (String × α) :=
  [("attack", e.attack), ("decay", e.decay), ("sustain", e.sustain), ("release", e.release)]

/-- **The envelope as a signal**, if no stage is negative. -/
def toSignal (e : Envelope α) : Wiring α (Signal α) := do
  match e.stages.find? fun (_, seconds) => lt seconds 0.0 with
  | some (stage, seconds) => throw (.negativeStage stage seconds)
  | none =>
    let decayStart := e.attack
    let sustainStart := decayStart + e.decay
    let releaseStart := sustainStart + e.sustain
    let releaseEnd := releaseStart + e.release
    let attack ← (← Signal.lineThrough 0.0 0.0 e.attack 1.0).gate 0.0 decayStart
    let decay ← (← Signal.lineThrough decayStart 1.0 sustainStart e.level).gate
      decayStart sustainStart
    let sustain ← (← Signal.constant e.level).gate sustainStart releaseStart
    let release ← (← Signal.lineThrough releaseStart e.level releaseEnd 0.0).gate
      releaseStart releaseEnd
    Signal.mix #[(1.0, attack), (1.0, decay), (1.0, sustain), (1.0, release)]

end Envelope

end Polyphony
