import Polyphony.Run
import Polyphony.Score.Sequencer
import Polyphony.Text.Lower

/-!
# Reading a score

A score is a text whose voices stand between commas. It is read in lower case, with `#` as another
spelling of the sharp. What is wrong with it, an empty voice or a token that the sequencer refuses,
ends the reading in strict mode; in lenient mode it is entered in the journal and left out.

* `Score.voices`: the voices of a text.
* `Track.read`: the notes of one voice.
* `Score.read`: the notes of all voices that are not blank.
* `Score.duration`: the time at which the last note is over.
-/

namespace Polyphony

open Scalar Text

variable {α : Type} [Scalar α]

/-- The notes of a voice, in order. -/
abbrev Track (α : Type) := List (Note α)

namespace Track

/-- A flaw at a token, with the place that a message tells. -/
def flawAt (track : Option Int) (t : Token) (flaw : ScoreFlaw) : Fault α :=
  .score ⟨flaw, .ofList t.command, some (.ofList t.text), some t.position, track⟩

/-- **The notes that tokens give** from a state of the sequencer on. After a refused token the voice
goes on in the state that the token has left. -/
def play (policy : ErrorPolicy) (track : Option Int) : Sequencer α → List Token → Run α (Track α)
  | _, [] => return []
  | s, t :: rest =>
    match s.perform t with
    | (.ok (some n), after) => do return n :: (← play policy track after rest)
    | (.ok none, after) => play policy track after rest
    | (.error (.flaw flaw), after) => do
      excuse policy (flawAt track t flaw) (.skipped (flawAt track t flaw))
      play policy track after rest
    | (.error (.number fault), _) => throw (.number fault)

/-- The tokens of a voice, if none of them has more digits than can be read. -/
def tokens (voice : List Char) : Except (Fault α) (List Token) :=
  match (Token.scan voice).find? (!·.isReadable) with
  | some t => .error (.tooManyDigits t.digits.length)
  | none => .ok (Token.scan voice)

/-- **The notes of a voice.** A run of digits that is too long to be read ends the reading. -/
def read (policy : ErrorPolicy) (track : Option Int) (voice : List Char) : Run α (Track α) := do
  play policy track .start (← Run.ofExcept (tokens voice))

end Track

namespace Score

/-- The parts of a text between commas; at least one. -/
def splitAtCommas : List Char → List (List Char)
  | [] => [[]]
  | c :: rest =>
    if c = ',' then [] :: splitAtCommas rest
    else
      match splitAtCommas rest with
      | part :: parts => (c :: part) :: parts
      | [] => [[c]]

/-- **The voices of a text**, in lower case and with sharps as `+`. -/
def voices (text : String) : List (List Char) :=
  splitAtCommas (toLower (text.toList.map fun c => if c = '#' then '+' else c))

/-- The fault of a blank voice. -/
def emptyTrack (track : Nat) (voice : List Char) : Fault α :=
  .score ⟨.emptyTrack, "", some (.ofList voice), some 0, some track⟩

/-- The notes of voices, the first of which has the number `track`. -/
def readVoices (policy : ErrorPolicy) : Nat → List (List Char) → Run α (List (Track α))
  | _, [] => return []
  | track, voice :: rest =>
    if voice.all isBlank then do
      excuse policy (emptyTrack track voice) (.skipped (emptyTrack track voice))
      readVoices policy (track + 1) rest
    else do
      let notes ← Track.read policy (some track) voice
      return notes :: (← readVoices policy (track + 1) rest)

/-- **The notes of a score**, voice by voice; blank voices are left out. -/
def read (policy : ErrorPolicy) (text : String) : Run α (List (Track α)) :=
  readVoices policy 0 (voices text)

/-- **The time at which the last note is over**, zero without notes. -/
def duration (tracks : List (Track α)) : α :=
  match (tracks.flatMap id).map Note.finish with
  | [] => 0.0
  | first :: rest => rest.foldl max first

end Score

end Polyphony
