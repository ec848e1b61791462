import Polyphony.Scalar

/-!
# Unit generators

A unit generator computes one sample from its parameters and from the signals wired to its inputs.
The number of inputs is part of its type. Sources have none; a mixer has any number; the other
generators have one or two.

* `Span`: a half-open interval of time.
* `Reel`: a recorded buffer.
* `Ugen`: the unit generators.
* `Ugen.sample`: what each of them computes.
-/

namespace Polyphony

open Scalar

/-- The times from `start` up to, but not including, `finish`. A span never runs backwards. -/
structure Span (α : Type) [Scalar α] where
  start : α
  finish : α
  ordered : lt finish start = false

/-- A buffer of samples, taken at a rate in hertz that is not zero or less. -/
structure Reel (α : Type) [Scalar α] where
  samples : Array α
  rate : α
  positive : le rate 0.0 = false

/-- The reels of a studio, by number. -/
abbrev Reels (α : Type) [Scalar α] := Array (Reel α)

/-- **Unit generators** with a number of inputs. -/
inductive Ugen (α : Type) [Scalar α] : Nat → Type where
  | constant (value : α) : Ugen α 0
  /-- `a0 + a1 * t` -/
  | line (a0 a1 : α) : Ugen α 0
  /-- `a0 + a1 * t + a2 * t ^ 2` -/
  | parabola (a0 a1 a2 : α) : Ugen α 0
  | sine (frequency phase : α) : Ugen α 0
  | sawtooth (frequency : α) : Ugen α 0
  | square (frequency pulseWidth : α) : Ugen α 0
  | triangle (frequency : α) : Ugen α 0
  /-- One at time zero, silence at all other times. -/
  | impulse : Ugen α 0
  /-- The playback of a reel. -/
  | playback (reel : Nat) : Ugen α 0
  /-- The weighted sum of the inputs. -/
  | mix {n : Nat} (gains : Fin n → α) : Ugen α n
  | gain (factor : α) : Ugen α 1
  /-- The input, earlier by the offset. -/
  | shift (offset : α) : Ugen α 1
  /-- The input, later by the delay. -/
  | delay (seconds : α) : Ugen α 1
  /-- The input within a span, silence outside. -/
  | gate (span : Span α) : Ugen α 1
  /-- The input, stretched from `[-1, 1]` onto `[low, high]`. -/
  | range (low high : α) : Ugen α 1
  /-- The product of carrier and modulator. -/
  | amplitudeModulation : Ugen α 2
  /-- The carrier at the time that the second input, the integral of a frequency, tells. -/
  | frequencyModulation : Ugen α 2
  /-- The carrier, earlier by the modulator. -/
  | phaseModulation : Ugen α 2
  /-- The carrier at the time scaled by the modulator. -/
  | timeScaling : Ugen α 2
  /-- The second input read at the value of the first. -/
  | response : Ugen α 2

/-- What is wired to the input of a generator that has one. -/
abbrev Ugen.only {β : Type} (inputs : Fin 1 → β) : β := inputs 0

variable {α : Type} [Scalar α]

namespace Span

/-- The span between two times, if they are in order. -/
def make? (start finish : α) : Option (Span α) :=
  if h : lt finish start = false then some ⟨start, finish, h⟩ else none

/-- Whether a time lies in the span. -/
def contains (s : Span α) (t : α) : Bool := le s.start t && lt t s.finish

end Span

namespace Reel

/-- The length of the buffer in seconds. -/
def duration (r : Reel α) : α := ofNat r.samples.size / r.rate

/-- **Playback.** Times are moved up by a billionth of a sample before the fraction is dropped, so
that the time of a sample finds that sample; outside the buffer there is silence. -/
def sample (r : Reel α) (t : α) : α :=
  let index := floor (t * r.rate + 1e-9)
  if le 0.0 index && lt index (ofNat r.samples.size) then r.samples.getD (toNat index) 0.0 else 0.0

end Reel

/-- The fraction of a scalar above its floor. -/
def fraction (x : α) : α := x - floor x

/-- **What a unit generator computes** at time `t`, the inputs being functions of time. A reel that
is not in the studio is silent. -/
def Ugen.sample (reels : Reels α) : {n : Nat} → Ugen α n → (Fin n → α → α) → α → α
  | _, .constant value, _, _ => value
  | _, .line a0 a1, _, t => a0 + t * a1
  | _, .parabola a0 a1 a2, _, t => t * t * a2 + t * a1 + a0
  | _, .sine frequency phase, _, t => sin (2.0 * pi * frequency * t + phase)
  | _, .sawtooth frequency, _, t => fraction (t * frequency) * 2.0 - 1.0
  | _, .square frequency pulseWidth, _, t =>
    if lt (fraction (t * frequency)) pulseWidth then 1.0 else -1.0
  | _, .triangle frequency, _, t =>
    let x := t * frequency
    2.0 * abs (2.0 * (x - floor (x + 0.5))) - 1.0
  | _, .impulse, _, t => if eq t 0.0 then 1.0 else 0.0
  | _, .playback reel, _, t => (reels[reel]?.map (·.sample t)).getD 0.0
  | n, .mix gains, inputs, t => Fin.foldl n (fun sum i => sum + gains i * inputs i t) 0.0
  | _, .gain factor, inputs, t => inputs 0 t * factor
  | _, .shift offset, inputs, t => inputs 0 (t + offset)
  | _, .delay seconds, inputs, t => inputs 0 (t - seconds)
  | _, .gate span, inputs, t => if span.contains t then inputs 0 t else 0.0
  | _, .range low high, inputs, t => (inputs 0 t + 1.0) / 2.0 * (high - low) + low
  | _, .amplitudeModulation, inputs, t => inputs 0 t * inputs 1 t
  | _, .frequencyModulation, inputs, t => inputs 0 (inputs 1 t)
  | _, .phaseModulation, inputs, t => inputs 0 (t + inputs 1 t)
  | _, .timeScaling, inputs, t => inputs 0 (t * inputs 1 t)
  | _, .response, inputs, t => inputs 1 (inputs 0 t)

end Polyphony
