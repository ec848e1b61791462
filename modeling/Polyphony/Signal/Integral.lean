import Polyphony.Signal.Describe
import Polyphony.Signal.Wiring

/-!
# Antiderivatives

Some signals have an antiderivative that is again a signal: constants, lines and sines, and what
mixers, gains, shifts, delays, gates and ranges make of them. The antiderivative is wired anew from
generators of its own. Shifting moves the origin, so shifts and delays take off the value at the
new origin; a gate takes off the value at its opening.

* `Ugen.integral`: the rule of each generator, given the antiderivatives of its inputs.
* `Signal.integral`: the antiderivative of a signal.
* `Signal.frequencyModulated`: a carrier driven by the antiderivative of a frequency.
-/

namespace Polyphony

open Scalar Wiring

variable {α : Type} [Scalar α]

/-- `F` less a constant value, where `F` is a signal already placed. -/
def lessValue (F : Signal α) (value : α) : Wiring α (Signal α) := do
  Signal.mix #[(1.0, F), (-1.0, ← Signal.constant value)]

/-- The antiderivative of a sine that starts from zero: `(cos p - cos (2 π f t + p)) / (2 π f)`. A
sine of frequency zero is a constant. -/
def sineIntegral (frequency phase : α) : Wiring α (Signal α) :=
  if eq frequency 0.0 then do
    enter .restingSine
    Signal.line 0.0 (sin phase)
  else do
    let scale := 1.0 / (2.0 * pi * frequency)
    let moving ← (← Signal.source (.sine frequency (phase + pi / 2.0))).gain (-scale)
    Signal.mix #[(1.0, moving), (scale * cos phase, ← Signal.constant 1.0)]

/-- **The antiderivative of a generator**, given those of its inputs. -/
def Ugen.integral : {n : Nat} → Ugen α n → (Fin n → Wiring α (Signal α)) → Wiring α (Signal α)
  | _, .constant value, _ => Signal.line 0.0 value
  | _, .line a0 a1, _ => Signal.source (.parabola 0.0 a0 (a1 / 2.0))
  | _, .sine frequency phase, _ => sineIntegral frequency phase
  | _, .mix gains, inputs => do
    let integrals ← Vector.ofFnM inputs
    place (.mix gains) integrals.get
  | _, .gain factor, inputs => do (← only inputs).gain factor
  | _, .shift offset, inputs => do
    let F ← only inputs
    lessValue (← F.shift offset) (F.sample (← read) offset)
  | _, .delay seconds, inputs => do
    let F ← only inputs
    lessValue (← F.delay seconds) (F.sample (← read) (-seconds))
  | _, .gate span, inputs => do
    let F ← only inputs
    Signal.through (.gate span) (← lessValue F (F.sample (← read) span.start))
  | _, .range low high, inputs => do
    let F ← only inputs
    let base ← Signal.line 0.0 ((high + low) / 2.0)
    Signal.mix #[((high - low) / 2.0, F), (1.0, base)]
  | _, u, _ => throw (.noIntegral u.title)

namespace Signal

/-- **The antiderivative of a signal**, if it has one among the signals. -/
def integral : Signal α → Wiring α (Signal α)
  | node _ ugen inputs => ugen.integral fun i => (inputs i).integral

/-- A carrier read at the antiderivative of a frequency signal. -/
def frequencyModulated (carrier frequency : Signal α) : Wiring α (Signal α) := do
  between .frequencyModulation carrier (← frequency.integral)

end Signal

end Polyphony
