import Polyphony.Given
import Polyphony.Scalar

/-!
# Faults

A fault is the cause of a failure, as data. Its wording, which needs the text of numbers, is in
`Polyphony.Message`.

* `Fault`: all causes.
* `FaultKind`: the kind of a cause; kinds form a small hierarchy (`FaultKind.lineage`).
* `Fault.isSynth`: the faults of this library, which a lenient compilation may skip.
* `Given.get`: a value that is needed.
-/

namespace Polyphony

/-- A sample rate as it was given: a whole number of hertz, or a scalar. -/
inductive Rate (α : Type) where
  | whole (hertz : Int)
  | exact (hertz : α)

/-- The kinds of faults, the last few being general ones that others are instances of. -/
inductive FaultKind where
  | configuration
  | score
  | resource
  | render
  | integral
  | synth
  | value
  | type
  | key
  | index
  | overflow
  | exit
  | waveFile
  | runtime
  | unsupported
  | operatingSystem
  | missingFile
  | fileForFolder
  | folderForFile
  | fileThere
  | attribute
  | memory
  | any
  deriving DecidableEq

/-- **The kinds that a kind belongs to**, from itself outwards. -/
def FaultKind.lineage : FaultKind → List FaultKind
  | .any => [.any]
  | .synth => [.synth, .any]
  | .configuration => [.configuration, .synth, .value, .any]
  | .score => [.score, .synth, .value, .any]
  | .resource => [.resource, .synth, .operatingSystem, .any]
  | .render => [.render, .synth, .runtime, .any]
  | .integral => [.integral, .synth, .unsupported, .runtime, .any]
  | .unsupported => [.unsupported, .runtime, .any]
  | .missingFile => [.missingFile, .operatingSystem, .any]
  | .fileForFolder => [.fileForFolder, .operatingSystem, .any]
  | .folderForFile => [.folderForFile, .operatingSystem, .any]
  | .fileThere => [.fileThere, .operatingSystem, .any]
  | kind => [kind, .any]

/-- What is wrong with a place in a score. -/
inductive ScoreFlaw where
  /-- A command that sets a value stands without a number. -/
  | needsNumber
  | tempoNotPositive
  | lengthNotPositive
  | noteLengthNotPositive
  /-- A number stands without a command. -/
  | noCommand
  | unknownCommand
  | emptyTrack
  | told (text : String)
  deriving DecidableEq

/-- A flaw, the command and the text it was found in, and where that text stands. -/
structure ScoreFault where
  flaw : ScoreFlaw
  command : String
  text : Option String
  /-- The number of characters before the text, within its voice. -/
  position : Option Int
  /-- The number of the voice. -/
  track : Option Int
  deriving DecidableEq

/-- Why a file cannot be read or written. -/
inductive FileFault where
  | missing
  | parentIsFile
  | isFolder
  /-- A step of the path, or all of it, is too long. -/
  | nameTooLong
  /-- The path holds the character zero. -/
  | zeroInPath
  /-- A folder is to be made where there is a file. -/
  | folderIsFile
  deriving DecidableEq

/-- Why an array cannot be made. -/
inductive SizeFault where
  /-- There are more items than can be counted. -/
  | uncountable
  /-- There are more coefficients than can be counted. -/
  | uncountableBins
  /-- There are more bytes than can be counted. -/
  | tooBig
  /-- There are more bytes than the memory has. -/
  | noRoom (items itemBytes : Nat) (itemType : String)
  deriving DecidableEq

/-- **The causes of failure.** -/
inductive Fault (α : Type) where
  /-- Voices stacked in octaves need a middle one. -/
  | evenVoices (count : Int)
  | reversedSpan (start finish : α)
  | negativeStage (stage : String) (seconds : α)
  | rateNotPositive (rate : Rate α)
  | negativeDuration (seconds : α)
  | chunkNotPositive (size : Int)
  | emptyKernel
  /-- A block that is odd or shorter than the kernel. -/
  | unfitBlock (length : Nat) (size : Int)
  | score (fault : ScoreFault)
  | oddBytes (count : Nat)
  | noBytes
  | unreadable (path : String) (cause : FileFault)
  | shortSpectrum (bins : Nat)
  /-- Adding the overlaps needs the length of the kernel, which a bare spectrum does not tell. -/
  | bareSpectrum
  | noIntegral (title : String)
  | pulseWidthOutside (width : α)
  | standingRateNotPositive (rate : Int)
  | blockNotPositive (size : Int)
  | readOnly
  | tooManyDigits (count : Nat)
  | notAnInstrument (shown : String)
  | unknownName (name : String)
  | unknownChoice (what name : String) (choices : List String)
  | noSuchInput
  | number (fault : NumberFault)
  | noArray (fault : SizeFault)
  /-- Something else stands where a value is needed. -/
  | unfit (gap : Gap) (need : Need)
  | noMember (title name : String)
  /-- A rate that no field of a wave file holds. -/
  | rateTooLarge (rate : Int)
  /-- A rate that no wave file has. -/
  | rateTooSmall
  | cannotWrite (path : String) (cause : FileFault)
  /-- A wave file cannot be written, for whatever cause. -/
  | cannotWriteWave (path : String)
  /-- A name that does not tell the format of a file. -/
  | formatUnknown (path : String)
  | invalidFormat (format : String)
  | unknownLevel (shown : String)
  | notALevel (shown : String)
  | exit (code : Nat)
  | told (kind : FaultKind) (text : String)

namespace Fault

variable {α : Type}

def kind : Fault α → FaultKind
  | evenVoices _ | reversedSpan _ _ | negativeStage _ _ | rateNotPositive _ | negativeDuration _
  | chunkNotPositive _ | emptyKernel | unfitBlock _ _ => .configuration
  | score _ => .score
  | oddBytes _ | noBytes => .resource
  | shortSpectrum _ | bareSpectrum => .render
  | noIntegral _ => .integral
  | pulseWidthOutside _ | standingRateNotPositive _ | blockNotPositive _ | readOnly
  | tooManyDigits _ | number .undefinedInteger | invalidFormat _ | unknownLevel _ => .value
  | notAnInstrument _ | formatUnknown _ | notALevel _ => .type
  | noArray (.noRoom _ _ _) => .memory
  | noArray _ => .value
  | unfit _ (.member _) | noMember _ _ => .attribute
  | unfit _ _ => .type
  | unreadable _ .zeroInPath | cannotWrite _ .zeroInPath => .value
  | unknownName _ | unknownChoice _ _ _ => .key
  | noSuchInput => .index
  | number _ | rateTooLarge _ => .overflow
  | rateTooSmall | cannotWriteWave _ => .waveFile
  | cannotWrite _ .missing => .missingFile
  | cannotWrite _ .parentIsFile => .fileForFolder
  | cannotWrite _ .isFolder => .folderForFile
  | cannotWrite _ .nameTooLong => .operatingSystem
  | cannotWrite _ .folderIsFile => .fileThere
  | unreadable _ _ => .resource
  | exit _ => .exit
  | told kind _ => kind

/-- **Whether the fault is one of this library**, as opposed to a general one. -/
def isSynth (f : Fault α) : Bool := f.kind.lineage.contains .synth

end Fault

/-- **The value that is needed.** -/
def Given.get {α β : Type} (need : Need) : Given β → Except (Fault α) β
  | value b => .ok b
  | nothing => .error (.unfit .nothing need)
  | emptyList => .error (.unfit .emptyList need)

end Polyphony
