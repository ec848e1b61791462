import Polyphony.Fault

/-!
# The journal

What the library reports while it works, as data. The wording is in `Polyphony.Message`.

* `Level`: how grave an entry is.
* `Entry`: the entries.
-/

namespace Polyphony

/-- The gravity of an entry, as a number. -/
structure Level where
  value : Int
  deriving DecidableEq

namespace Level

/-- No level of one's own. -/
def unset : Level := ⟨0⟩

def debug : Level := ⟨10⟩
def info : Level := ⟨20⟩
def warning : Level := ⟨30⟩
def error : Level := ⟨40⟩
def critical : Level := ⟨50⟩

/-- The name of a level; a level between the named ones is named by its number. -/
def name (l : Level) : String :=
  if l = debug then "DEBUG"
  else if l = info then "INFO"
  else if l = warning then "WARNING"
  else if l = error then "ERROR"
  else if l = critical then "CRITICAL"
  else if l = unset then "NOTSET"
  else "Level " ++ toString l.value

/-- The level with a name in capitals. Two levels have a second name. -/
def ofName? : String → Option Level
  | "DEBUG" => some debug
  | "INFO" => some info
  | "WARNING" | "WARN" => some warning
  | "ERROR" => some error
  | "CRITICAL" | "FATAL" => some critical
  | "NOTSET" => some unset
  | _ => none

end Level

/-- **Entries of the journal.** -/
inductive Entry (α : Type) where
  | told (level : Level) (text : String)
  /-- A part of a score was left out. -/
  | skipped (fault : Fault α)
  /-- The instrument refused a note, which was left out. -/
  | noteSkipped (track : Nat) (start : α) (fault : Fault α)
  | compiled (tracks notes : Nat) (finish : α)
  /-- A line was asked for through two points of one time. -/
  | flatLine (time value : α)
  /-- A sine of frequency zero was integrated as a constant. -/
  | restingSine
  | recording (title : String) (samples : Nat) (rate : Rate α) (chunks : Nat)
  | convolved (samples block : Nat) (overlapAdd : Given Bool)
  | kernelLoaded (path : String) (samples : Nat)
  | kernelKnown (path : String)
  | waveWritten (samples : Nat) (path : String)
  | started
  | rendered (samples : Nat) (seconds : α)

def Entry.level {α : Type} : Entry α → Level
  | told level _ => level
  | skipped _ | noteSkipped _ _ _ => .warning
  | compiled _ _ _ | kernelLoaded _ _ | waveWritten _ _ | started | rendered _ _ => .info
  | flatLine _ _ | restingSine | recording _ _ _ _ | convolved _ _ _ | kernelKnown _ => .debug

end Polyphony
