import Polyphony.Console
import Polyphony.Message
import Polyphony.Options
import Polyphony.Sound.Wave
import Polyphony.Studio

/-!
# The program

One call of the command line: a score is read, compiled, recorded, perhaps filtered, and written
as a wave file, as a file of sixteen-bit samples, or to the standard output.

* `Program.render`: the recording that some options ask for.
* `Program.run`: a call of the program.
-/

namespace Polyphony.Program

def versionNumber : String := "0.1.0"

/-- The name and version of the program. -/
def version : String := "funcsynth " ++ versionNumber

/-- The seconds of a recording after the last note. -/
def tail {α : Type} [Scalar α] : α := 0.5

/-- What a call leaves behind, besides files. -/
structure Outcome where
  code : Nat
  output : List UInt8
  errors : List String

/-- An outcome with an error to report. -/
def failure (code : Nat) (message : String) : Outcome := ⟨code, [], ["Error: " ++ message]⟩

/-- The score that some options choose. -/
def score (o : Options) : Session Float (Given String) := do
  match o.mml with
  | .nothing =>
    let song ← Session.ofExcept (o.song.get (.member "lower"))
    return .value (← Session.ofExcept (Songbook.find? song))
  | text => return text

/-- The text of a score that is to be read. -/
def scoreText (text : Given String) : Session Float String :=
  Session.ofExcept (text.get (.member "replace"))

/-- The length of a recording: what is asked for, or the length of the piece and a tail. -/
def seconds (o : Options) (text : Given String) : Session Float (Given Float) := do
  match o.duration with
  | .nothing =>
    let tracks ← Session.readScore none (← scoreText text)
    return .value (Score.duration tracks + tail)
  | asked => return asked

/-- **The recording that some options ask for.** -/
def render (o : Options) (rate : Int) (text : Given String) : Session Float (Reel Float) := do
  let seconds ← seconds o text
  let preset ← Session.ofExcept (o.instrument.get (.member "lower"))
  let piece ← Session.compile none (.ofPreset preset) true (← scoreText text)
  let plan := { RecordingPlan.standard with workers := o.workers }
  let r ← Session.ofRun (piece.record (← get).reels (.whole rate) seconds plan (← get).memory)
  match o.filter with
  | .nothing => return r
  | asked =>
    let path ← Session.ofExcept (asked.get .path)
    Session.filtered r (.kernel (← Session.loadKernel path)) (.value o.overlapAdd)

/-- Writes a reel as a wave file. A path leads only up to a character zero in it. That a rate is too
small is found out when the file is there already. -/
def writeWave (path : FilePath) (r : Reel Float) : Session Float Unit := do
  discard (Session.ofExcept (Wave.hertz? r.rate))
  if path.isSuffixOnly then throw (.formatUnknown path.shown)
  let save (bytes : List UInt8) : Session Float Unit :=
    Session.writeFile path.upToZero bytes fun _ => .cannotWriteWave path.shown
  match Wave.file? r with
  | .ok bytes => save bytes
  | .error .rateTooSmall => do
    save []
    throw .rateTooSmall
  | .error fault => throw fault
  Session.enter (.waveWritten r.samples.size path.shown)

/-- Writes a reel where the options say, and answers with what goes to the standard output. -/
def write (o : Options) (r : Reel Float) : Session Float (List UInt8) := do
  match o.output with
  | .nothing => return Pcm.encode r.samples.toList
  | asked =>
    let path ← Session.ofExcept (asked.get (.member "suffix"))
    if Text.toLower path.suffix = ".wav".toList then
      writeWave path r
    else
      Session.writeFile path (Pcm.encode r.samples.toList)
    return []

/-- **Renders and writes.** A fault of this library while rendering is reported, and nothing is
written; other faults are not for this program to report. -/
def produce (o : Options) (rate : Int) (text : Given String) : Session Float Outcome := do
  let rendered : Except (Fault Float) (Reel Float) ←
    tryCatch (Except.ok <$> render o rate text) fun fault =>
      if fault.isSynth then return .error fault else throw fault
  match rendered with
  | .error fault => return failure 1 fault.message
  | .ok r =>
    let output ← write o r
    Session.enter (.rendered r.samples.size r.duration)
    return ⟨0, output, []⟩

/-- **A call of the program** with some words on its command line. The level that the options set
stays the standing one of the journal. -/
def run (argv : List String) : Session Float Outcome :=
  match Options.read argv with
  | .error .version => return ⟨Farewell.version.code, (version ++ "\n").toUTF8.toList, []⟩
  | .error farewell => return ⟨farewell.code, [], []⟩
  | .ok o => do
    discard (Console.setLevel o.logLevel)
    Session.enter .started
    let text ← score o
    let rate ← Session.ofExcept (o.sampleRate.get (.leftOf "<=" "int"))
    if rate ≤ 0 then
      return failure 2 ("sample rate must be positive: " ++ toString rate)
    else produce o rate text

end Polyphony.Program
