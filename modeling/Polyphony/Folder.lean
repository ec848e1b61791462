import Polyphony.Fault

/-!
# Folders

Paths lead to files, from the root or from a working folder. A path is read without its empty steps
and single dots; a step up is kept, and it matters whether it is only counted, as in resolving a
path, or taken, which needs a folder to take it in.

* `FilePath`: paths; `FilePath.shown`, `FilePath.suffix`.
* `Folder`: the files; `Folder.resolve`, `Folder.read`, `Folder.write`, `Folder.makeFolders`.
-/

namespace Polyphony

/-- **A path**: what stands before the first step, and the steps. -/
structure FilePath where
  /-- Empty for a relative path, else one or two slashes. -/
  anchor : String
  steps : List String
  deriving DecidableEq

namespace FilePath

/-- The pieces of a text between slashes. -/
def pieces : List Char → List (List Char)
  | [] => [[]]
  | c :: rest =>
    if c = '/' then [] :: pieces rest
    else
      match pieces rest with
      | p :: ps => (c :: p) :: ps
      | [] => [[c]]

/-- **The path of a text.** Exactly two slashes at the front are kept apart from one. -/
def ofString (s : String) : FilePath :=
  let anchor :=
    match s.toList with
    | '/' :: '/' :: '/' :: _ => "/"
    | '/' :: '/' :: _ => "//"
    | '/' :: _ => "/"
    | _ => ""
  ⟨anchor, (pieces s.toList).map String.ofList |>.filter fun p => p != "" && p != "."⟩

/-- The text of a path. -/
def shown (p : FilePath) : String :=
  if p.anchor = "" ∧ p.steps = [] then "." else p.anchor ++ "/".intercalate p.steps

/-- The path without its last step. -/
def parent (p : FilePath) : FilePath := { p with steps := p.steps.dropLast }

/-- Whether the character zero occurs in a path. -/
def holdsZero (p : FilePath) : Bool := p.steps.any fun step => step.toList.contains (Char.ofNat 0)

/-- The path up to the first character zero of its text. -/
def upToZero (p : FilePath) : FilePath :=
  ofString (String.ofList (p.shown.toList.takeWhile (· ≠ Char.ofNat 0)))

/-- Whether a step has more bytes than a name can have. -/
def isLongStep (step : String) : Bool := 255 < step.utf8ByteSize

/-- Whether a path has more bytes than can be asked for at once. -/
def isLong (p : FilePath) : Bool := 4096 ≤ p.shown.utf8ByteSize

/-- **The suffix of the last step**, with its dot. A dot at either end of the step starts none. -/
def suffix (p : FilePath) : List Char :=
  let name := (p.steps.getLastD "").toList
  let last := (name.reverse.takeWhile (· ≠ '.')).reverse
  if last.length + 1 < name.length ∧ last ≠ [] then '.' :: last else []

/-- Whether nothing but dots stands before the last dot of the last step. -/
def isSuffixOnly (p : FilePath) : Bool :=
  (((p.steps.getLastD "").toList.reverse.dropWhile (· ≠ '.')).all (· == '.'))

end FilePath

/-- **Resolved paths**: the steps from the root. -/
abbrev Location := List String

/-- **The files that can be seen** from a working folder, and the folders that are known to be there
besides those that hold a file. -/
structure Folder where
  /-- The working folder. -/
  here : Location
  folders : List Location
  files : List (Location × List UInt8)

namespace Folder

/-- A working folder without files. -/
def empty (here : Location) : Folder := ⟨here, [here], []⟩

/-- Takes steps from a place, newest step first. A step up from the root stays there. -/
def climb (place : List String) (steps : List String) : List String :=
  steps.foldl (fun place step => if step = ".." then place.tail else step :: place) place

/-- Where a path starts. -/
def origin (f : Folder) (p : FilePath) : Location := if p.anchor = "" then f.here else []

/-- **Where a path leads.** Nothing on the way has to exist. -/
def resolve (f : Folder) (p : FilePath) : Location :=
  (climb (f.origin p).reverse p.steps).reverse

/-- The full path of a location. -/
def fullPath (place : Location) : String := "/" ++ "/".intercalate place

def file? (f : Folder) (place : Location) : Option (List UInt8) := f.files.lookup place

/-- Whether there is a folder at a place. -/
def isFolder (f : Folder) (place : Location) : Bool :=
  place.isEmpty || f.folders.any (place.isPrefixOf ·) ||
    f.files.any fun (file, _) => place.isPrefixOf file && place.length < file.length

/-- Takes steps from a place, newest step first, where each step is taken in a folder. -/
def descend (f : Folder) : List String → List String → Except FileFault (List String)
  | place, [] => .ok place
  | place, step :: rest =>
    if f.isFolder place.reverse then
      if FilePath.isLongStep step then .error .nameTooLong
      else descend f (if step = ".." then place.tail else step :: place) rest
    else if (f.file? place.reverse).isSome then .error .parentIsFile
    else .error .missing

/-- The place that a path names, with every step taken in a folder. -/
def locate (f : Folder) (p : FilePath) : Except FileFault Location := do
  if p.holdsZero then throw .zeroInPath
  if p.isLong then throw .nameTooLong
  return (← descend f (f.origin p).reverse p.steps).reverse

/-- The bytes of the file at a place. -/
def readAt (f : Folder) (place : Location) : Except FileFault (List UInt8) :=
  if f.isFolder place then .error .isFolder
  else
    match f.file? place with
    | some bytes => .ok bytes
    | none => .error .missing

/-- **The bytes of the file that a path names.** -/
def read (f : Folder) (p : FilePath) : Except FileFault (List UInt8) := do
  f.readAt (← f.locate p)

/-- The folder with a file of given bytes at a place. -/
def put (f : Folder) (place : Location) (bytes : List UInt8) : Folder :=
  if (f.file? place).isSome then
    { f with files := f.files.map fun (file, old) => (file, if file = place then bytes else old) }
  else { f with files := f.files ++ [(place, bytes)] }

/-- **Writes a file** in a folder that is there. -/
def write (f : Folder) (p : FilePath) (bytes : List UInt8) : Except FileFault Folder := do
  let place ← f.locate p
  if f.isFolder place then throw .isFolder
  return f.put place bytes

/-- Makes the folders of some steps from a place, newest step first. -/
def makeSteps (f : Folder) : List String → List String → Except FileFault Folder
  | _, [] => .ok f
  | place, step :: rest =>
    let next := if step = ".." then place.tail else step :: place
    if FilePath.isLongStep step then .error .nameTooLong
    else if f.isFolder next.reverse then makeSteps f next rest
    else if (f.file? next.reverse).isNone then
      makeSteps { f with folders := next.reverse :: f.folders } next rest
    else if rest.isEmpty then .error .folderIsFile
    else .error .parentIsFile

/-- **Makes a folder**, and those on the way to it, unless they are there. -/
def makeFolders (f : Folder) (p : FilePath) : Except FileFault Folder := do
  if p.holdsZero then throw .zeroInPath
  if p.isLong then throw .nameTooLong
  makeSteps f (f.origin p).reverse p.steps

end Folder

end Polyphony
