import Polyphony.Console.Fill
import Polyphony.Studio

/-!
# The console

Messages of named sources are written to a file and to the terminal, one line each, in a chosen
format and from a chosen level on. The level also becomes the standing one of the journal.

* `Console.named`: the level that a name stands for.
* `Console.start`: a console, ready to be written to.
* `Console.tell`: a message to the console.
-/

namespace Polyphony

/-- **A console.** -/
structure Console where
  level : Level
  format : Console.Format
  file : FilePath

namespace Console

/-- A message of a named source. -/
structure Message where
  source : String
  level : Level
  text : String
  /-- The time at which the message is written. -/
  time : String

/-- The name under which a source appears: without a name, and with an empty one, it has a standing
name. -/
def sourceName : Option String → String
  | none => "funcsynth"
  | some "" => "root"
  | some name => name

/-- The keys of a message and their values. -/
def Message.values (m : Message) : List (String × Value) :=
  [("name", .text m.source), ("msg", .text m.text), ("message", .text m.text),
   ("levelname", .text m.level.name), ("levelno", .whole m.level.value),
   ("asctime", .text m.time), ("args", .other "()"), ("exc_info", .other "None"),
   ("exc_text", .other "None"), ("stack_info", .other "None"),
   ("threadName", .text "MainThread"), ("processName", .text "MainProcess")]

/-- The value of a key. -/
def Message.value? (m : Message) (key : List Char) : Option Value :=
  m.values.lookup (String.ofList key)

/-- The line of a message, if the format can be filled in. -/
def line? (format : Format) (m : Message) : Option String :=
  (format.fill? m.value?).map (· ++ "\n")

/-- A name in capitals. Of the characters beyond ASCII only those matter whose capitals are ASCII. -/
def capitals (name : String) : String :=
  String.ofList (name.toList.flatMap fun c =>
    if c = 'ı' then ['I'] else if c = 'ſ' then ['S']
    else if c = 'ﬅ' || c = 'ﬆ' then ['S', 'T']
    else [c.toUpper])

/-- The settings of all styles of formats, as they are shown. -/
private def stylesShown : String :=
  "\x7b'%': (<class 'logging.PercentStyle'>, '%(levelname)s:%(name)s:%(message)s'), '\x7b': " ++
    "(<class 'logging.StrFormatStyle'>, '\x7blevelname\x7d:\x7bname\x7d:\x7bmessage\x7d'), " ++
    "'$': (<class 'logging.StringTemplateStyle'>, " ++
    "'$\x7blevelname\x7d:$\x7bname\x7d:$\x7bmessage\x7d')\x7d"

/-- **The level that a name stands for**, in any mixture of capitals. Two names stand for settings
that are no levels; any other unknown name means the level of information. -/
def named {α : Type} (name : String) : Except (Fault α) Level :=
  match capitals name with
  | "BASIC_FORMAT" => .error (.unknownLevel "%(levelname)s:%(name)s:%(message)s")
  | "_STYLES" => .error (.notALevel stylesShown)
  | name => .ok ((Level.ofName? name).getD .info)

variable {α : Type} [Scalar α]

/-- Makes the level of a name the standing one of the journal. -/
def setLevel (name : Given String) : Session α Level := do
  let level ← Session.ofExcept (named (← Session.ofExcept (name.get (.member "upper"))))
  Session.setLevel level
  return level

/-- Adds to the end of a file, which is made if it is not there. -/
def append (file : FilePath) (bytes : List UInt8) : Session α Unit := do
  let folder := (← get).folder
  let before := (folder.read file).toOption.getD []
  Session.writeFile file (before ++ bytes) (.cannotWrite (Folder.fullPath (folder.resolve file)))

/-- **Starts a console.** The file is there from now on, even if the format or the level is
refused. -/
def start (level : Given String) (format : String) (file : FilePath) : Session α Console := do
  let name ← Session.ofExcept (level.get (.member "upper"))
  append file []
  let format ← Session.ofExcept (Format.read format)
  return ⟨← setLevel (.value name), format, file⟩

/-- Whether a message reaches a level. What is not above zero never does. -/
def reaches (level : Level) (m : Message) : Bool :=
  0 < m.level.value && level.value ≤ m.level.value

/-- **Tells the console a message**, and answers with what appears on the terminal: the line of the
message, if it reaches the level and the format can be filled in. -/
def tell (c : Console) (m : Message) : Session α String := do
  match if reaches c.level m then line? c.format m else none with
  | some line =>
    append c.file line.toUTF8.toList
    return line
  | none => return ""

end Console

end Polyphony
