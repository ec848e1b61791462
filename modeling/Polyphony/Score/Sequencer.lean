import Polyphony.Fault
import Polyphony.Score.Pitch
import Polyphony.Score.Token

/-!
# The sequencer

A voice is played token by token. The sequencer keeps the octave, the tempo, the length of notes
without a number, the volume, and a cursor in time. Each token changes the state, gives a note, or
is refused.

* `Note`: a note or a rest, with its place in time.
* `Sequencer`: the state; every voice begins in `Sequencer.start`.
* `Sequencer.act`: what is done for a token, and `Sequencer.perform`: the state that it leaves.
* `Sequencer.step`: the same for tokens that are not refused.
-/

namespace Polyphony

open Scalar

variable {α : Type} [Scalar α]

/-- **A note or a rest** of a voice. -/
structure Note (α : Type) where
  /-- Seconds from the start of the piece. -/
  start : α
  duration : α
  /-- The frequency in hertz, zero for a rest. -/
  frequency : α
  volume : α
  rest : Bool

/-- The time at which a note is over. -/
def Note.finish (n : Note α) : α := n.start + n.duration

/-- **The state of a voice.** -/
structure Sequencer (α : Type) where
  octave : Int
  /-- A whole note lasts `320 / tempo` seconds; never zero. -/
  tempo : Nat
  /-- The part of a whole note that a note without a number lasts; never zero. -/
  length : Nat
  volume : Nat
  time : α

/-- Why a token is refused: the score is wrong there, or a number leaves the range. -/
inductive Refusal where
  | flaw (flaw : ScoreFlaw)
  | number (fault : NumberFault)

namespace Sequencer

/-- The state at the start of a voice. -/
def start : Sequencer α := ⟨4, 80, 4, 120, 0.0⟩

/-- A conversion, whose failure refuses the token. -/
def number {β : Type} (r : Except NumberFault β) : Except Refusal β :=
  r.mapError .number

/-- **The note of a token** whose command is a note name of the given frequency. A note of
denominator `n` lasts `320 / tempo / n` seconds, half as much again with a dot; its volume is the
state's, on a scale of two hundred. -/
def note (s : Sequencer α) (t : Token) (frequency : α) : Except Refusal (Note α) := do
  let denominator := t.value?.getD s.length
  if denominator = 0 then throw (.flaw .noteLengthNotPositive)
  let plain := 320.0 / (← number (ofInt? s.tempo)) / (← number (ofInt? denominator))
  let duration := if t.dotted then plain * 1.5 else plain
  return {
    start := s.time
    duration := duration
    frequency := ← number (Pitch.onOctave? frequency s.octave)
    volume := (← number (ofInt? s.volume)) / 200.0
    rest := Pitch.isRest t.command }

/-- The number of a token whose command sets a value. -/
def setting (t : Token) : Except Refusal Nat :=
  match t.value? with
  | some n => .ok n
  | none => .error (.flaw .needsNumber)

/-- The number of a token whose command sets a value other than zero. -/
def positiveSetting (t : Token) (flaw : ScoreFlaw) : Except Refusal Nat := do
  let n ← setting t
  if n = 0 then throw (.flaw flaw)
  return n

/-- Something done to a voice, which can be refused half way: what has been changed until then stays
changed. -/
abbrev Action (α β : Type) := ExceptT Refusal (StateM (Sequencer α)) β

/-- **What is done for a token**, in order. The answer is the note it gives. -/
def act (t : Token) : Action α (Option (Note α)) := do
  match t.command with
  | ['o'] =>
    let octave ← setting t
    modify fun s => { s with octave := octave }
    return none
  | ['t'] =>
    let tempo ← positiveSetting t .tempoNotPositive
    modify fun s => { s with tempo := tempo }
    return none
  | ['l'] =>
    let length ← positiveSetting t .lengthNotPositive
    modify fun s => { s with length := length }
    return none
  | ['v'] =>
    let volume ← setting t
    modify fun s => { s with volume := volume }
    return none
  | ['>'] =>
    modify fun s => { s with octave := s.octave + 1 }
    return none
  | ['<'] =>
    modify fun s => { s with octave := s.octave - 1 }
    return none
  | ['&'] => return none
  | [] => throw (.flaw .noCommand)
  | command =>
    match Pitch.frequency? command with
    | some frequency =>
      let n ← (← get).note t frequency
      modify fun s => { s with time := n.finish }
      return some n
    | none => throw (.flaw .unknownCommand)

/-- **What becomes of a token**: the note it gives, or why it is refused, and the state that is left in
either case. -/
def perform (s : Sequencer α) (t : Token) : Except Refusal (Option (Note α)) × Sequencer α :=
  (act t).run.run s

/-- **What a token does** that is not refused: the state after it, and the note it gives. -/
def step (s : Sequencer α) (t : Token) : Except Refusal (Sequencer α × Option (Note α)) :=
  (s.perform t).1.map fun n => ((s.perform t).2, n)

end Sequencer

end Polyphony
