import Polyphony.Binary64.Text
import Polyphony.Journal
import Polyphony.Text.Quoted

/-!
# Messages

The wording of faults and of journal entries, for doubles.

* `Fault.message`: the wording of a fault.
* `Entry.message`: the wording of an entry.
-/

namespace Polyphony

open Text (quote quoteList)

/-- A rate as it was given. -/
def Rate.text : Rate Float → String
  | whole hertz => toString hertz
  | exact hertz => Binary64.text hertz

def NumberFault.message : NumberFault → String
  | integerTooLarge => "int too large to convert to float"
  | powerTooLarge => "(34, 'Numerical result out of range')"
  | infiniteInteger => "cannot convert float infinity to integer"
  | undefinedInteger => "cannot convert float NaN to integer"

def FileFault.message (path : String) : FileFault → String
  | missing => "[Errno 2] No such file or directory: " ++ quote path
  | parentIsFile => "[Errno 20] Not a directory: " ++ quote path
  | isFolder => "[Errno 21] Is a directory: " ++ quote path
  | nameTooLong => "[Errno 36] File name too long: " ++ quote path
  | folderIsFile => "[Errno 17] File exists: " ++ quote path
  | zeroInPath => "embedded null byte"

/-- A count of bytes in the largest unit of which there is one, with three digits or all digits
before the point. -/
def byteText (bytes : Nat) : String :=
  let units := ["bytes", "KiB", "MiB", "GiB", "TiB", "PiB", "EiB"]
  let last := units.length - 1
  let unit := Nat.log2 bytes / 10
  let unit := if Binary64.divNearest bytes (Nat.pow 1024 unit) = 1024 then unit + 1 else unit
  let unit := min unit last
  let den := Nat.pow 1024 unit
  let amount :=
    if unit = 0 then toString bytes
    else if Binary64.divNearest bytes den < 1000 then Binary64.generalText true 3 bytes den
    else Binary64.fixedText true 0 bytes den
  amount ++ " " ++ units.getD unit ""

def SizeFault.message : SizeFault → String
  | uncountable => "Maximum allowed size exceeded"
  | uncountableBins => "Maximum allowed dimension exceeded"
  | tooBig =>
    "array is too big; `arr.size * arr.dtype.itemsize` is larger than the maximum possible size."
  | noRoom items itemBytes itemType =>
    "Unable to allocate " ++ byteText (items * itemBytes) ++ " for an array with shape (" ++
      toString items ++ ",) and data type " ++ itemType

/-- The type of what stands where a value is needed. -/
def Gap.title : Gap → String
  | nothing => "NoneType"
  | emptyList => "list"

private def unordered (comparison left right : String) : String :=
  quote comparison ++ " not supported between instances of " ++ quote left ++ " and " ++ quote right

private def memberless (title name : String) : String :=
  quote title ++ " object has no attribute " ++ quote name

/-- What is wrong when a need is not met. -/
def Need.message (gap : Gap) : Need → String
  | leftOf comparison other => unordered comparison gap.title other
  | rightOf other comparison => unordered comparison other gap.title
  | member name => memberless gap.title name
  | double => "float() argument must be a string or a real number, not " ++ quote gap.title
  | path => "expected str, bytes or os.PathLike object, not " ++ gap.title

/-- What is wrong, without the place. -/
def ScoreFault.complaint (f : ScoreFault) : String :=
  match f.flaw with
  | .needsNumber => "'" ++ f.command ++ "' requires a numeric value"
  | .tempoNotPositive => "tempo must be positive"
  | .lengthNotPositive => "length must be positive"
  | .noteLengthNotPositive => "note length must be positive"
  | .noCommand => "numeric value without a command"
  | .unknownCommand => "unknown command '" ++ f.command ++ "'"
  | .emptyTrack => "empty track"
  | .told text => text

/-- **What is wrong, and where**, as far as the place is known. -/
def ScoreFault.message (f : ScoreFault) : String :=
  let place :=
    (f.track.map fun n => "track " ++ toString n).toList ++
      (f.position.map fun n => "position " ++ toString n).toList
  if place.isEmpty then f.complaint
  else
    let text := (f.text.map quote).getD "None"
    f.complaint ++ " (" ++ ", ".intercalate place ++ ": " ++ text ++ ")"

/-- **The wording of a fault.** -/
def Fault.message : Fault Float → String
  | evenVoices count =>
    "MixNode.unison requires an odd, positive voice count (got " ++ toString count ++ ")"
  | reversedSpan start finish =>
    "GateNode start (" ++ Binary64.text start ++ ") must be less than or equal to end (" ++
      Binary64.text finish ++ ")"
  | negativeStage stage seconds =>
    "adsr " ++ stage ++ " must be non-negative (got " ++ Binary64.text seconds ++ ")"
  | rateNotPositive rate => "sample_rate must be positive (got " ++ rate.text ++ ")"
  | negativeDuration seconds =>
    "duration must be non-negative (got " ++ Binary64.text seconds ++ ")"
  | chunkNotPositive size => "chunk_size must be positive (got " ++ toString size ++ ")"
  | emptyKernel => "FilterKernel requires at least one sample"
  | unfitBlock length size =>
    "block_size must be even and >= kernel length " ++ toString length ++ " (got " ++
      toString size ++ ")"
  | score fault => fault.message
  | oddBytes count =>
    "PCM16 data has odd length " ++ toString count ++ "; last sample is truncated"
  | noBytes => "PCM16 data is empty"
  | unreadable path .zeroInPath => FileFault.zeroInPath.message path
  | unreadable path cause => "cannot read filter file " ++ path ++ ": " ++ cause.message path
  | shortSpectrum bins =>
    "kernel spectrum of length " ++ toString bins ++ " is too short for block convolution"
  | bareSpectrum => "overlap_add convolution requires a FilterKernel, not a bare spectrum"
  | noIntegral title => title ++ " has no closed-form integral"
  | pulseWidthOutside width => "pulse_width must be in [0, 1], got " ++ Binary64.text width
  | standingRateNotPositive rate => "sample rate must be positive, got " ++ toString rate
  | blockNotPositive size => "block_size must be positive (got " ++ toString size ++ ")"
  | readOnly => "assignment destination is read-only"
  | tooManyDigits count =>
    "Exceeds the limit (4300 digits) for integer string conversion: value has " ++
      toString count ++ " digits; use sys.set_int_max_str_digits() to increase the limit"
  | notAnInstrument shown =>
    "instrument must have a play(note, length, volume) method or be callable, got " ++ shown
  | unknownName name => name
  | unknownChoice what name choices =>
    "unknown " ++ what ++ " " ++ quote name ++ "; choose one of " ++ quoteList choices
  | noSuchInput => "list index out of range"
  | number fault => fault.message
  | noArray fault => fault.message
  | unfit gap need => need.message gap
  | noMember title name => memberless title name
  | rateTooLarge rate =>
    if rate < 9223372036854775808 then "integer " ++ toString rate ++ " does not fit 'int'"
    else "int too big to convert"
  | rateTooSmall => ""
  | cannotWrite path cause => cause.message path
  | cannotWriteWave path => "Error opening " ++ quote path ++ ": System error."
  | formatUnknown path =>
    "No format specified and unable to get format from file extension: " ++ quote path
  | invalidFormat format => "Invalid format '" ++ format ++ "' for '%' style"
  | unknownLevel shown => "Unknown level: " ++ quote shown
  | notALevel shown => "Level not an integer or a valid string: " ++ shown
  | exit code => toString code
  | told _ text => text

/-- A truth value as it was given. -/
def truthText : Given Bool → String
  | .value true => "True"
  | .value false => "False"
  | .nothing => "None"
  | .emptyList => "[]"

/-- **The wording of an entry.** -/
def Entry.message : Entry Float → String
  | told _ text => text
  | skipped fault => fault.message
  | noteSkipped track start fault =>
    "track " ++ toString track ++ ": note at " ++ Binary64.fixed 3 start ++ "s failed: " ++
      fault.message
  | compiled tracks notes finish =>
    "Compiled " ++ toString tracks ++ " tracks, " ++ toString notes ++ " notes, " ++
      Binary64.fixed 2 finish ++ "s"
  | flatLine time value =>
    "LineNode.interpolate: degenerate interval at t=" ++ Binary64.text time ++
      ", using constant " ++ Binary64.text value
  | restingSine => "SineNode.integral: zero frequency, integrating as constant"
  | recording title samples rate chunks =>
    "Recording " ++ title ++ ": " ++ toString samples ++ " samples at " ++ rate.text ++ " Hz in " ++
      toString chunks ++ " chunks"
  | convolved samples block overlapAdd =>
    "Convolved " ++ toString samples ++ " samples with block size " ++ toString block ++
      " (overlap_add=" ++ truthText overlapAdd ++ ")"
  | kernelLoaded path samples =>
    "Loaded filter kernel " ++ path ++ " (" ++ toString samples ++ " samples)"
  | kernelKnown path => "Using cached filter kernel " ++ path
  | waveWritten samples path =>
    "Wrote " ++ toString samples ++ " samples to " ++ path ++ " (PCM_16)"
  | started => "funcsynth v0.1.0 starting..."
  | rendered samples seconds =>
    "Rendered " ++ toString samples ++ " samples (" ++ Binary64.fixed 2 seconds ++ "s)"

end Polyphony
