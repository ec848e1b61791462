import Polyphony.Instrument
import Polyphony.Score.Track

/-!
# Pieces

A score is compiled into one signal: each note is played by an instrument, moved to its start and
mixed with the others of its voice, and the voices are mixed. In lenient mode a note that the
instrument refuses is entered in the journal and left out; other failures of an instrument end the
compilation in both modes.

* `Piece.attempt`: one note.
* `Piece.placeTrack`: the notes of a voice.
* `Score.compile`: the piece.
-/

namespace Polyphony

open Scalar Wiring

variable {α : Type} [Scalar α]

namespace Piece

/-- **Asks the instrument for a note.** The note is left out if it is refused and the policy is
lenient. -/
def attempt (policy : ErrorPolicy) (play : Play α) (track : Nat) (n : Note α) :
    Wiring α (Option (Signal α)) := do
  ofRun (.ask ⟨n.frequency, n.duration, n.volume⟩)
  tryCatch (some <$> play n.frequency n.duration n.volume) fun fault =>
    if fault.isSynth then do
      ofRun (excuse policy fault (.noteSkipped track n.start fault))
      return none
    else throw fault

/-- The notes of a voice with their starts, and the later of `finish` and the time at which the
last of them is over. Rests are played too, unless they are not wanted. -/
def placeTrack (policy : ErrorPolicy) (play : Play α) (playRests : Bool) (track : Nat) :
    α → Track α → Wiring α (List (α × Signal α) × α)
  | finish, [] => return ([], finish)
  | finish, n :: rest =>
    if n.rest && !playRests then placeTrack policy play playRests track finish rest
    else do
      match ← attempt policy play track n with
      | some signal =>
        let (placed, finish) ← placeTrack policy play playRests track (max finish n.finish) rest
        return ((n.start, signal) :: placed, finish)
      | none => placeTrack policy play playRests track finish rest

/-- What has been compiled so far: the voices, the number of notes, and the time at which the last
one is over. -/
structure Progress (α : Type) [Scalar α] where
  voices : Array (α × Signal α)
  notes : Nat
  finish : α

/-- The voices of a piece, the first of which has the number `track` among those read. -/
def placeTracks (policy : ErrorPolicy) (play : Play α) (playRests : Bool) :
    Nat → Progress α → List (Track α) → Wiring α (Progress α)
  | _, p, [] => return p
  | track, p, notes :: rest => do
    let (placed, finish) ← placeTrack policy play playRests track p.finish notes
    let voice ← Signal.ofEvents placed
    placeTracks policy play playRests (track + 1)
      ⟨p.voices.push (1.0, voice), p.notes + placed.length, finish⟩ rest

end Piece

/-- **The piece of a score**, played by a performer: a mix with one mix of notes for each voice. -/
def Score.compile (policy : ErrorPolicy) (performer : Performer α) (playRests : Bool)
    (text : String) : Wiring α (Signal α) := do
  let play ← ofRun (.ofExcept performer.play?)
  let tracks ← ofRun (Score.read policy text)
  let p ← Piece.placeTracks policy play playRests 0 ⟨#[], 0, 0.0⟩ tracks
  enter (.compiled p.voices.size p.notes p.finish)
  Signal.mix p.voices

end Polyphony
