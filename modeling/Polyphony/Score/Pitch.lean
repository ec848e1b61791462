import Polyphony.Scalar

/-!
# Pitches

A note has a name: a letter, possibly with a sharp or a flat. The table gives the frequencies of
one octave, from which the others follow by doubling. The names `b+` and `c-` stay in their
octave, and rests are names of frequency zero.
-/

namespace Polyphony.Pitch

open Scalar

variable {α : Type} [Scalar α]

/-- The octave of the table. -/
def referenceOctave : Int := 4

/-- **The frequencies of the note names** in the reference octave. -/
def table : List (List Char × α) :=
  [(['c'], 261.63), (['c', '+'], 277.18), (['d', '-'], 277.18), (['d'], 293.66),
   (['d', '+'], 311.13), (['e', '-'], 311.13), (['e'], 329.63), (['f'], 349.23),
   (['f', '+'], 369.99), (['g', '-'], 369.99), (['g'], 392.0), (['g', '+'], 415.30),
   (['a', '-'], 415.30), (['a'], 440.0), (['a', '+'], 466.16), (['b', '-'], 466.16),
   (['b'], 493.88), (['b', '+'], 261.63), (['c', '-'], 493.88), (['p'], 0.0), (['r'], 0.0)]

/-- The names of rests. -/
def restNames : List (List Char) := [['p'], ['r']]

def frequency? (name : List Char) : Option α := table.lookup name

def isRest (name : List Char) : Bool := restNames.contains name

/-- A frequency of the reference octave, moved to another octave. -/
def onOctave? (frequency : α) (octave : Int) : Except NumberFault α := do
  return frequency * (← twoToThe? (octave - referenceOctave))

end Polyphony.Pitch
