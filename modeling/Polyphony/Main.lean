import Polyphony.Program

/-!
# The command line

Runs the program over the files of the working folder. The decisions are made in
`Polyphony.Program`; this module reads the kernel file that the options name, and writes what the
program has produced.
-/

namespace Polyphony.Main

/-- A studio for a call, in which an unset level keeps every entry. -/
def studioOver (folder : Folder) : Studio Float := { Studio.empty folder with ground := .unset }

/-- The studio for a call: the file that the filter option names is there if it can be read, and so
is the folder that the output option names a file in. -/
def studio (argv : List String) : IO (Studio Float) := do
  let here := FilePath.ofString (← IO.currentDir).toString
  let mut folder := Folder.empty here.steps
  let .ok options := Options.read argv | return studioOver folder
  if let .value path := options.output then
    folder := { folder with folders := (folder.resolve path).dropLast :: folder.folders }
  if let .value path := options.filter then
    try
      let bytes ← IO.FS.readBinFile path.shown
      folder := folder.put (folder.resolve path) bytes.toList
    catch _ => pure ()
  return studioOver folder

/-- Writes the files that are in a folder but were not in it before, or have changed. -/
def saveNew (before after : Folder) : IO Unit := do
  for (place, bytes) in after.files do
    unless before.file? place == some bytes do
      IO.FS.writeBinFile (Folder.fullPath place) ⟨bytes.toArray⟩

/-- A call of the program, from its command line to its exit code. -/
def call (argv : List String) : IO UInt32 := do
  let before ← studio argv
  let (ended, after) := Program.run argv before
  let errors ← IO.getStderr
  for entry in ended.entries do
    errors.putStrLn (entry.level.name ++ " - " ++ entry.message)
  match ended.result with
  | .error fault =>
    errors.putStrLn fault.message
    return 1
  | .ok outcome =>
    for line in outcome.errors do errors.putStrLn line
    (← IO.getStdout).write ⟨outcome.output.toArray⟩
    saveNew before.folder after.folder
    return outcome.code.toUInt32

end Polyphony.Main

def main (argv : List String) : IO UInt32 := Polyphony.Main.call argv
