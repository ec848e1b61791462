import Polyphony.Folder
import Polyphony.Instrument
import Polyphony.Score.Songbook
import Polyphony.Text.Numeral

/-!
# Options

The command line is a list of options, each with a value or without. A long option may be
shortened as long as it is the only one that begins so, and its value may be attached with `=`; the
short option for the output may have its value attached directly. Nothing but options is allowed.
Asking for help or for the version ends the reading at once. An attached value of two dashes is no
value but an empty list, and nothing is asked of it.

* `Options`: the options of one call.
* `Options.read`: the options of a command line.
-/

namespace Polyphony

/-- **The options of a call**, with what holds if they are not given. -/
structure Options where
  song : Given String := .value "mario"
  mml : Given String := .nothing
  instrument : Given Preset := .value .dummy
  duration : Given Float := .nothing
  sampleRate : Given Int := .value 44100
  filter : Given FilePath := .nothing
  overlapAdd : Bool := false
  workers : Given Int := .nothing
  output : Given FilePath := .nothing
  logLevel : Given String := .value "WARNING"

/-- Why there is nothing to render. -/
inductive Farewell where
  | help
  | version
  /-- The command line is wrong. -/
  | misuse
  deriving DecidableEq

/-- The exit code without a rendering. -/
def Farewell.code : Farewell → Nat
  | help | version => 0
  | misuse => 2

namespace Options

/-- The names of options. -/
inductive Key where
  | help
  | song
  | mml
  | instrument
  | duration
  | sampleRate
  | filter
  | overlapAdd
  | workers
  | output
  | logLevel
  | version
  deriving DecidableEq

/-- The long spellings. -/
def longNames : List (String × Key) :=
  [("--help", .help), ("--song", .song), ("--mml", .mml), ("--instrument", .instrument),
   ("--duration", .duration), ("--sample-rate", .sampleRate), ("--filter", .filter),
   ("--overlap-add", .overlapAdd), ("--workers", .workers), ("--output", .output),
   ("--log-level", .logLevel), ("--version", .version)]

/-- The short spellings. -/
def shortName? (c : Char) : Option Key :=
  if c = 'h' then some .help else if c = 'o' then some .output else none

/-- Whether an option has a value. -/
def Key.takesValue : Key → Bool
  | help | overlapAdd | version => false
  | _ => true

/-- The value attached to an option. -/
inductive Attached where
  | nothing
  /-- After an equals sign. -/
  | equals (value : List Char)
  /-- Directly after a short option. -/
  | direct (value : List Char)

/-- The words of a command line. -/
inductive Word where
  | plain (text : List Char)
  /-- Two dashes alone, after which nothing is an option. -/
  | separator
  | option (key : Key) (value : Attached)
  /-- It looks like an option, but there is none of that name. -/
  | stranger

/-- Whether a word is a negative number, which may be the value of an option. A line feed at its end
does not matter. -/
def isNegativeNumber : List Char → Bool
  | '-' :: body =>
    let body := if body.getLast? = some '\n' then body.dropLast else body
    let whole := body.takeWhile Text.isDigit
    match body.dropWhile Text.isDigit with
    | [] => !whole.isEmpty
    | '.' :: fraction => !fraction.isEmpty && fraction.all Text.isDigit
    | _ => false
  | _ => false

/-- What stands before the first equals sign, and what stands after it. -/
def splitEquals (cs : List Char) : List Char × Attached :=
  match cs.dropWhile (· ≠ '=') with
  | _ :: value => (cs.takeWhile (· ≠ '='), .equals value)
  | [] => (cs, .nothing)

/-- A word that begins with a dash but names no option. -/
def strange (cs : List Char) : Word :=
  if isNegativeNumber cs || cs.contains ' ' then .plain cs else .stranger

/-- A word that begins with two dashes. The full name of an option comes before a shortened one. -/
def longWord (cs : List Char) : Except Farewell Word :=
  let (name, value) := splitEquals cs
  match longNames.find? fun (long, _) => long.toList == name with
  | some (_, key) => .ok (.option key value)
  | none =>
    match longNames.filter fun (long, _) => name.isPrefixOf long.toList with
    | [] => .ok (strange cs)
    | [(_, key)] => .ok (.option key value)
    | _ => .error .misuse

/-- A word that begins with one dash and the character `c`. An equals sign stands before a value;
where there is none to be, it is skipped. -/
def shortWord (c : Char) (rest : List Char) : Word :=
  match shortName? c, rest with
  | some key, [] => .option key .nothing
  | some key, '=' :: value =>
    .option key (if key.takesValue || value.isEmpty then .equals value else .direct value)
  | some key, value => .option key (.direct value)
  | none, _ => strange ('-' :: c :: rest)

/-- **The kind of a word.** -/
def classify (s : String) : Except Farewell Word :=
  match s.toList with
  | '-' :: '-' :: rest => longWord ('-' :: '-' :: rest)
  | '-' :: c :: rest => .ok (shortWord c rest)
  | cs => .ok (.plain cs)

/-- The words of a command line. -/
def words : List String → Except Farewell (List Word)
  | [] => .ok []
  | s :: rest =>
    if s = "--" then .ok (.separator :: rest.map fun s => .plain s.toList)
    else do
      let w ← classify s
      return w :: (← words rest)

/-- What has been read so far. A voice is chosen by a song or by a text, not by both. -/
structure Reading where
  options : Options
  songGiven : Bool
  mmlGiven : Bool
  /-- Whether there was a word that is no option and no value. -/
  extras : Bool

/-- What a value is given as, if it can be read. -/
def given {β : Type} (value : List Char) (read : List Char → Option β) :
    Except Farewell (Given β) :=
  if value = ['-', '-'] then .ok .emptyList
  else
    match read value with
    | some b => .ok (.value b)
    | none => .error .misuse

private def asText (value : List Char) : Option String := some (String.ofList value)

private def asPath (value : List Char) : Option FilePath :=
  some (FilePath.ofString (String.ofList value))

private def asSong (value : List Char) : Option String :=
  Songbook.names.find? (·.toList == value)

private def asPreset (value : List Char) : Option Preset :=
  Preset.all.find? (·.name.toList == value)

/-- **Sets an option to a value.** A song and a text exclude each other. -/
def set (r : Reading) (key : Key) (value : List Char) : Except Farewell Reading := do
  let o := r.options
  match key with
  | .song =>
    let song ← given value asSong
    if r.mmlGiven then throw .misuse
    return { r with options := { o with song := song }, songGiven := true }
  | .mml =>
    let mml ← given value asText
    if r.songGiven then throw .misuse
    return { r with options := { o with mml := mml }, mmlGiven := true }
  | .instrument =>
    let instrument ← given value asPreset
    return { r with options := { o with instrument := instrument } }
  | .duration =>
    let duration ← given value Text.readDouble?
    return { r with options := { o with duration := duration } }
  | .sampleRate =>
    let sampleRate ← given value Text.readInteger?
    return { r with options := { o with sampleRate := sampleRate } }
  | .workers =>
    let workers ← given value Text.readInteger?
    return { r with options := { o with workers := workers } }
  | .filter =>
    let filter ← given value asPath
    return { r with options := { o with filter := filter } }
  | .output =>
    let output ← given value asPath
    return { r with options := { o with output := output } }
  | .logLevel =>
    let logLevel ← given value asText
    return { r with options := { o with logLevel := logLevel } }
  | .help | .overlapAdd | .version => throw .misuse

/-- What an option without a value does. -/
def trigger (r : Reading) : Key → Except Farewell Reading
  | .overlapAdd => .ok { r with options := { r.options with overlapAdd := true } }
  | .version => .error .version
  | .help => .error .help
  | _ => .error .misuse

/-- Further short options directly after the one for help: any number of these, and at the end
perhaps the one for the output with a value. -/
def helpTail (valueFollows : Bool) : List Char → Farewell
  | [] => .help
  | 'h' :: rest => helpTail valueFollows rest
  | ['o'] => if valueFollows then .help else .misuse
  | 'o' :: _ => .help
  | _ => .misuse

/-- **Reads words one after the other.** -/
def readWords (r : Reading) : List Word → Except Farewell Options
  | [] => if r.extras then .error .misuse else .ok r.options
  | .plain _ :: rest | .separator :: rest | .stranger :: rest =>
    readWords { r with extras := true } rest
  | .option key (.equals value) :: rest => do readWords (← set r key value) rest
  | .option key (.direct value) :: rest =>
    if key.takesValue then do readWords (← set r key value) rest
    else
      match rest with
      | .plain _ :: _ => .error (helpTail true value)
      | _ => .error (helpTail false value)
  | .option key .nothing :: .plain value :: rest =>
    if key.takesValue then do readWords (← set r key value) rest
    else do readWords (← trigger r key) (.plain value :: rest)
  | .option key .nothing :: rest =>
    if key.takesValue then .error .misuse else do readWords (← trigger r key) rest

/-- **The options of a command line.** -/
def read (argv : List String) : Except Farewell Options := do
  readWords ⟨{}, false, false, false⟩ (← words argv)

end Options

end Polyphony
