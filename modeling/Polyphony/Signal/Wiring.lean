import Polyphony.Run
import Polyphony.Signal.Basic

/-!
# Wiring

Signals are built in a monad that hands out identities, one for every generator that is placed,
and that can see the reels of the studio. Building may fail and may leave entries in the journal.

* `Wiring`: the monad.
* `Signal.gate`, `Signal.square`, `Signal.unison`: generators whose parameters are checked.
* `Signal.lineThrough`: the line through two points.
* `Signal.ofEvents`: signals placed at their starts.
-/

namespace Polyphony

open Scalar

/-- **The monad of wiring**: the reels can be read, and the next free identity is a state. -/
abbrev Wiring (α : Type) [Scalar α] := ReaderT (Reels α) (StateT Nat (Run α))

variable {α : Type} [Scalar α]

namespace Wiring

/-- A run in which nothing is wired. -/
def ofRun {β : Type} (r : Run α β) : Wiring α β := fun _ next => do
  let b ← r
  return (b, next)

def enter (entry : Entry α) : Wiring α Unit := ofRun (.enter entry)

/-- A conversion of numbers that may fail. -/
def ofNumber {β : Type} : Except NumberFault β → Wiring α β
  | .ok b => pure b
  | .error fault => throw (.number fault)

/-- **Places a generator**: a signal with an identity of its own. -/
def place {n : Nat} (ugen : Ugen α n) (inputs : Fin n → Signal α) : Wiring α (Signal α) :=
  fun _ next => pure (.node next ugen inputs, next + 1)

end Wiring

namespace Signal

open Wiring

/-- Places a generator without inputs. -/
def source (ugen : Ugen α 0) : Wiring α (Signal α) := place ugen Fin.elim0

/-- Places a generator with one input. -/
def through (ugen : Ugen α 1) (input : Signal α) : Wiring α (Signal α) := place ugen fun _ => input

/-- Places a generator with two inputs. -/
def between (ugen : Ugen α 2) (first second : Signal α) : Wiring α (Signal α) :=
  place ugen fun i => if i.val = 0 then first else second

def constant (value : α) : Wiring α (Signal α) := source (.constant value)

def line (a0 a1 : α) : Wiring α (Signal α) := source (.line a0 a1)

def sine (frequency : α) : Wiring α (Signal α) := source (.sine frequency 0.0)

def cosine (frequency : α) : Wiring α (Signal α) := source (.sine frequency (pi / 2.0))

def sawtooth (frequency : α) : Wiring α (Signal α) := source (.sawtooth frequency)

def triangle (frequency : α) : Wiring α (Signal α) := source (.triangle frequency)

/-- A pulse wave. The width is the share of the period that is high. -/
def square (frequency pulseWidth : α) : Wiring α (Signal α) :=
  if le 0.0 pulseWidth && le pulseWidth 1.0 then source (.square frequency pulseWidth)
  else throw (.pulseWidthOutside pulseWidth)

/-- **The line through two points** `(time, value)`. Two points of one time give the constant line
at the first value. -/
def lineThrough (t0 v0 t1 v1 : α) : Wiring α (Signal α) :=
  if eq t1 t0 then do
    enter (.flatLine t0 v0)
    line v0 0.0
  else
    let a1 := (v1 - v0) / (t1 - t0)
    line (v0 - t0 * a1) a1

/-- The weighted sum of signals. -/
def mix (parts : Array (α × Signal α)) : Wiring α (Signal α) :=
  place (.mix fun i : Fin parts.size => parts[i].1) fun i => parts[i].2

def gain (input : Signal α) (factor : α) : Wiring α (Signal α) := through (.gain factor) input

def shift (input : Signal α) (offset : α) : Wiring α (Signal α) := through (.shift offset) input

def delay (input : Signal α) (seconds : α) : Wiring α (Signal α) := through (.delay seconds) input

/-- The input between two times. -/
def gate (input : Signal α) (start finish : α) : Wiring α (Signal α) :=
  match Span.make? start finish with
  | some span => through (.gate span) input
  | none => throw (.reversedSpan start finish)

def range (input : Signal α) (low high : α) : Wiring α (Signal α) :=
  through (.range low high) input

/-- The factor of a number of octaves. -/
def octaveFactor (octaves : Int) : Wiring α α := ofNumber (twoToThe? octaves)

/-- Voices an octave apart, `count` of them, the first one moved by `octaves`. -/
def stack (pitch : α) (voice : α → Wiring α (Signal α)) :
    Nat → Int → Wiring α (List (α × Signal α))
  | 0, _ => return []
  | count + 1, octaves => do
    let first ← voice (pitch * (← octaveFactor octaves))
    return (1.0, first) :: (← stack pitch voice count (octaves + 1))

/-- **Voices stacked in octaves** around a pitch: an odd number, the middle one at the pitch. The
lowest and the highest octave have to be in the range of the scalars, before any voice is made. -/
def unison (pitch : α) (count : Int) (voice : α → Wiring α (Signal α)) : Wiring α (Signal α) :=
  if count ≤ 0 ∨ count % 2 = 0 then throw (.evenVoices count)
  else do
    let half := count / 2
    discard (octaveFactor (-half))
    discard (octaveFactor half)
    let voices ← stack pitch voice count.toNat (-half)
    mix voices.toArray

/-- **Signals placed at their starts**: the time zero of each is moved to its start. -/
def ofEvents (events : List (α × Signal α)) : Wiring α (Signal α) := do
  let placed ← events.mapM fun (start, signal) => do
    return (1.0, ← signal.shift (-start))
  mix placed.toArray

end Signal

end Polyphony
