import Polyphony.Envelope
import Polyphony.Signal.Integral
import Polyphony.Text.Lower

/-!
# Instruments

An instrument turns a frequency, a length and a volume into a signal whose time zero is the onset
of the note. Three presets are recipes over the unit generators.

* `Play`: what an instrument does for one note.
* `Preset`: the presets, looked up by name in any case.
* `Performer`: what is offered as an instrument; `Performer.play?` says how it plays, if it does.
-/

namespace Polyphony

open Scalar Wiring

variable {α : Type} [Scalar α]

/-- How a note is played: frequency in hertz (zero for a rest), length in seconds, volume.

Of an instrument it is assumed that what it does for a note is settled by these three, the reels and the
next identity: it remembers nothing from one call to the next, whether a call fails or not, and it does not
ask which error mode stands. -/
abbrev Play (α : Type) [Scalar α] := α → α → α → Wiring α (Signal α)

/-- The presets. -/
inductive Preset where
  | drum
  | dummy
  | legit
  deriving DecidableEq

namespace Preset

/-- The presets in the order of their names. -/
def all : List Preset := [.drum, .dummy, .legit]

def name : Preset → String
  | drum => "drum"
  | dummy => "dummy"
  | legit => "legit"

def title : Preset → String
  | drum => "DrumInstrument"
  | dummy => "DummyInstrument"
  | legit => "LegitInstrument"

/-- **The preset of a name**, in any mixture of capitals. -/
def find? (name : String) : Except (Fault α) Preset :=
  match all.find? fun p => p.name.toList == Text.toLower name.toList with
  | some preset => .ok preset
  | none => .error (.unknownChoice "instrument" name (all.map Preset.name))

/-- A low sawtooth with a short envelope, its pitch swept by another envelope. The length of the
note has no say. -/
def playDrum : Play α := fun note _ volume => do
  let wave ← Signal.sawtooth (note / 32.0)
  let body ← Signal.between .amplitudeModulation wave (← Envelope.toSignal ⟨0.1, 0.1, 0.0, 0.1, 0.1⟩)
  let sweep ← Envelope.toSignal ⟨0.05, 1.0, 0.05, 0.05, 0.1⟩
  (← body.frequencyModulated sweep).gain (0.2 * volume)

/-- A sawtooth with a vibrato of five hertz. -/
def playDummy : Play α := fun note length volume => do
  let wave ← Signal.sawtooth note
  let body ← Signal.between .amplitudeModulation wave
    (← Envelope.toSignal ⟨0.1, length, 0.0, 0.1, 0.1⟩)
  let vibrato ← (← Signal.sine 5.0).range 1.05 1.10
  (← body.frequencyModulated vibrato).gain (0.1 * volume)

/-- Seven sines stacked in octaves, with a tremolo of four hertz. -/
def playLegit : Play α := fun note length volume => do
  let organ ← Signal.mix #[(0.1, ← Signal.unison note 7 Signal.sine)]
  let tremolo ← Signal.between .amplitudeModulation organ (← (← Signal.sine 4.0).range 0.3 1.0)
  let shaped ← Signal.between .amplitudeModulation tremolo
    (← Envelope.toSignal ⟨0.1, length, 0.0, 0.1, 0.1⟩)
  shaped.gain volume

/-- **How a preset plays.** -/
def play : Preset → Play α
  | drum => playDrum
  | dummy => playDummy
  | legit => playLegit

end Preset

/-- What is offered as an instrument: it may have a way of playing, or be one itself. Of either way it is
assumed what `Play` says. -/
structure Performer (α : Type) [Scalar α] where
  method : Option (Play α)
  itself : Option (Play α)
  /-- How it is shown in a message. -/
  shown : String

namespace Performer

/-- A preset as a performer. -/
def ofPreset (p : Preset) : Performer α := ⟨some p.play, none, p.title ++ "()"⟩

/-- **The way of playing**: the performer's own way comes before the performer itself. -/
def play? (p : Performer α) : Except (Fault α) (Play α) :=
  match p.method, p.itself with
  | some play, _ => .ok play
  | none, some play => .ok play
  | none, none => .error (.notAnInstrument p.shown)

end Performer

end Polyphony
