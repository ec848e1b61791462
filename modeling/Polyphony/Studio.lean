import Polyphony.Folder
import Polyphony.Kernel
import Polyphony.Recording
import Polyphony.Room
import Polyphony.Score.Piece
import Polyphony.Signal.Clone

/-!
# The studio

The studio holds what one answer leaves for the next: the reels, the spectra computed so far, the
kernels on the shelf, the files, the standing error mode, the standing sample rate and the standing
level of the journal. It also knows the size of the memory, which nothing changes. What an operation
has done before it fails stays done.

* `Studio`: the state; `Session`: operations on it, a lawful monad.
* `Session.wire`: wiring with the reels of the studio.
* `Session.record`, `Session.tape`: signals that play back a new reel.
* `Session.convolve`: filters a reel in its place.
* `Session.spectrum`, `Session.loadKernel`: spectra and kernels, computed or read once.
-/

namespace Polyphony

open Scalar

/-- A spectrum that has been computed, with an identity of its own. -/
structure StoredSpectrum (α : Type) where
  id : Nat
  spectrum : Spectrum α

/-- **The state of a studio.** -/
structure Studio (α : Type) [Scalar α] where
  /-- The next free identity. -/
  next : Nat
  reels : Reels α
  /-- Spectra by the identity of the kernel and the size of the block. -/
  spectra : List ((Nat × Nat) × StoredSpectrum α)
  /-- Kernels read from files, by location. -/
  shelf : List (Location × Kernel α)
  folder : Folder
  mode : ErrorMode
  /-- The standing level: the least level of the entries that are kept. -/
  level : Level
  /-- The level that holds where the standing one is unset. -/
  ground : Level
  /-- The standing sample rate in hertz. -/
  rate : Nat
  rate_pos : 0 < rate
  /-- The size of the largest array that there is memory for, in bytes. -/
  memory : Nat

variable {α : Type} [Scalar α]

/-- A studio with nothing in it but a working folder. Its journal keeps every entry until a level is
set, and from warnings on where the level is unset. -/
def Studio.empty (folder : Folder) (memory : Nat := Room.standard) : Studio α where
  next := 0
  reels := #[]
  spectra := []
  shelf := []
  folder := folder
  mode := .strict
  level := .debug
  ground := .warning
  rate := 44100
  rate_pos := by decide
  memory := memory

/-- The level from which on entries are kept. -/
def Studio.threshold (s : Studio α) : Level := if s.level = .unset then s.ground else s.level

/-- Whether an entry is kept. -/
def Studio.keeps (s : Studio α) (entry : Entry α) : Bool :=
  s.threshold.value ≤ entry.level.value

/-- **Operations in a studio**: from the studio before, the run and the studio after. -/
def Session (α : Type) [Scalar α] (β : Type) : Type := Studio α → Run α β × Studio α

namespace Session

variable {β γ : Type}

protected def pure (b : β) : Session α β := fun s => (.pure b, s)

protected def bind (m : Session α β) (f : β → Session α γ) : Session α γ := fun s =>
  match (m s).1.result with
  | .ok b =>
    let ended := f b (m s).2
    (⟨(m s).1.trace ++ ended.1.trace, ended.1.result⟩, ended.2)
  | .error e => (⟨(m s).1.trace, .error e⟩, (m s).2)

instance : Monad (Session α) where
  pure := Session.pure
  bind := Session.bind

instance : MonadStateOf (Studio α) (Session α) where
  get := fun s => (.pure s, s)
  set s := fun _ => (.pure ⟨⟩, s)
  modifyGet f := fun s => (.pure (f s).1, (f s).2)

instance : MonadExceptOf (Fault α) (Session α) where
  throw e := fun s => (⟨[], .error e⟩, s)
  tryCatch m handle := fun s =>
    match (m s).1.result with
    | .ok _ => m s
    | .error e =>
      let ended := handle e (m s).2
      (⟨(m s).1.trace ++ ended.1.trace, ended.1.result⟩, ended.2)

theorem bind_ok {m : Session α β} {s : Studio α} {b : β} (h : (m s).1.result = .ok b)
    (f : β → Session α γ) :
    (m >>= f) s =
      (⟨(m s).1.trace ++ (f b (m s).2).1.trace, (f b (m s).2).1.result⟩, (f b (m s).2).2) := by
  show Session.bind m f s = _
  simp [Session.bind, h]

theorem bind_error {m : Session α β} {s : Studio α} {e : Fault α} (h : (m s).1.result = .error e)
    (f : β → Session α γ) : (m >>= f) s = (⟨(m s).1.trace, .error e⟩, (m s).2) := by
  show Session.bind m f s = _
  simp [Session.bind, h]

theorem tryCatch_ok {m : Session α β} {s : Studio α} {b : β} (h : (m s).1.result = .ok b)
    (handle : Fault α → Session α β) : tryCatch m handle s = m s := by
  simp only [tryCatch, tryCatchThe, MonadExceptOf.tryCatch, h]

theorem tryCatch_error {m : Session α β} {s : Studio α} {e : Fault α}
    (h : (m s).1.result = .error e) (handle : Fault α → Session α β) :
    tryCatch m handle s =
      (⟨(m s).1.trace ++ (handle e (m s).2).1.trace, (handle e (m s).2).1.result⟩,
        (handle e (m s).2).2) := by
  simp only [tryCatch, tryCatchThe, MonadExceptOf.tryCatch, h]

private theorem map_same (m : Session α β) : id <$> m = m := by
  funext s
  show Session.bind m (fun b => Session.pure (id b)) s = m s
  rcases h : m s with ⟨⟨t, r⟩, after⟩
  cases r <;> simp [Session.bind, Session.pure, Run.pure, h]

private theorem bind_twice (m : Session α β) (f : β → Session α γ) {δ : Type}
    (g : γ → Session α δ) : m >>= f >>= g = m >>= fun b => f b >>= g := by
  funext s
  show Session.bind (Session.bind m f) g s = Session.bind m (fun b => Session.bind (f b) g) s
  simp only [Session.bind]
  cases (m s).1.result with
  | error e => rfl
  | ok b => cases h : (f b (m s).2).1.result <;> simp [h, List.append_assoc]

instance : LawfulMonad (Session α) :=
  LawfulMonad.mk' (Session α) map_same
    (fun b f => by
      funext s
      show Session.bind (Session.pure b) f s = f b s
      simp [Session.bind, Session.pure, Run.pure])
    fun m f g => bind_twice m f g

/-- An operation that does not touch the studio. Of its journal the studio keeps what reaches the
standing level. -/
def ofRun (r : Run α β) : Session α β := fun s => (r.keepEntries s.keeps, s)

def ofExcept (r : Except (Fault α) β) : Session α β := ofRun (.ofExcept r)

def enter (entry : Entry α) : Session α Unit := ofRun (.enter entry)

/-- **Wiring in the studio.** -/
def wire (w : Wiring α β) : Session α β := fun s =>
  let r := (w s.reels s.next).keepEntries s.keeps
  match r.result with
  | .ok (b, next) => (⟨r.trace, .ok b⟩, { s with next := next })
  | .error fault => (⟨r.trace, .error fault⟩, s)

/-- A new identity. -/
def fresh : Session α Nat := modifyGet fun s => (s.next, { s with next := s.next + 1 })

/-- The policy of a call that may ask for a mode of its own. -/
def policy (asked : Option ErrorMode) : Session α ErrorPolicy := do
  return ⟨(← get).mode, asked⟩

/-- Makes an error mode the standing one. -/
def setMode (mode : ErrorMode) : Session α Unit := modify fun s => { s with mode := mode }

/-- Makes a level the standing one. -/
def setLevel (level : Level) : Session α Unit := modify fun s => { s with level := level }

/-- Makes a sample rate the standing one. -/
def setRate (rate : Int) : Session α Unit :=
  if h : 0 < rate.toNat then modify fun s => { s with rate := rate.toNat, rate_pos := h }
  else throw (.standingRateNotPositive rate)

/-- The rate that is asked for, or the standing one. -/
def rateOr (asked : Option α) : Session α (Rate α) := do
  match asked with
  | some hertz => return .exact hertz
  | none => return .whole (← get).rate

/-- **Raises a fault** by the policy of a call, unless it is fatal, in which case it is raised in
every mode. -/
def raise (asked : Option ErrorMode) (fatal : Bool) (fault : Fault α) (text : String) :
    Session α Unit := do
  if fatal then throw fault
  ofRun (excuse (← policy asked) fault (.told .warning text))

/-- The notes of a score. -/
def readScore (asked : Option ErrorMode) (text : String) : Session α (List (Track α)) := do
  ofRun (Score.read (← policy asked) text)

/-- The piece of a score. -/
def compile (asked : Option ErrorMode) (performer : Performer α) (playRests : Bool)
    (text : String) : Session α (Signal α) := do
  wire (Score.compile (← policy asked) performer playRests text)

/-- A clone of a signal. -/
def clone (signal : Signal α) : Session α (Signal α) :=
  modifyGet fun s =>
    let (made, reels, next) := signal.clone s.reels s.next
    (made, { s with reels := reels, next := next })

/-- A signal that plays back a new reel. -/
def playback (r : Reel α) : Session α (Signal α) := do
  let reel ← modifyGet fun s => (s.reels.size, { s with reels := s.reels.push r })
  wire (Signal.source (.playback reel))

/-- **A signal that plays back given samples.** -/
def tape (samples : Array α) (rate : Rate α) : Session α (Signal α) := do
  playback (← ofExcept (Reel.ofSamples samples rate))

/-- **A signal that plays back the recording of another.** -/
def record (signal : Signal α) (rate : Rate α) (seconds : Given α) (plan : RecordingPlan) :
    Session α (Signal α) := do
  playback (← ofRun (signal.record (← get).reels rate seconds plan (← get).memory))

/-- A kernel of given samples. -/
def kernel (samples : Array α) (name : Option String) : Session α (Kernel α) := do
  ofExcept (Kernel.ofSamples (← fresh) samples name)

/-- A kernel of sixteen-bit samples. -/
def kernelOfPcm (bytes : List UInt8) (name : Option String) : Session α (Kernel α) := do
  ofExcept (Kernel.ofPcm (← fresh) bytes name)

/-- **The spectrum of a kernel**, for blocks of a size, computed when it is first asked for. -/
def spectrum (k : Kernel α) (blockSize : Option Int) : Session α (StoredSpectrum α) := do
  let block ← ofExcept (k.fitBlock (blockSize.getD k.blockSize))
  match (← get).spectra.lookup (k.id, block) with
  | some known => return known
  | none =>
    ofExcept ((Room.forBins (← get).memory (block / 2 + 1)).mapError .noArray)
    let made : StoredSpectrum α := ⟨← fresh, k.spectrumAt block⟩
    modify fun s => { s with spectra := ((k.id, block), made) :: s.spectra }
    return made

/-- The spectrum of a filter. -/
def filterSpectrum : Filter α → Session α (Spectrum α)
  | .kernel k => return (← spectrum k none).spectrum
  | .bare bins => return bins

/-- A reel, filtered. -/
def filtered (r : Reel α) (f : Filter α) (overlapAdd : Given Bool) : Session α (Reel α) := do
  let bins ← filterSpectrum f
  let (samples, block) ← ofExcept (f.apply bins overlapAdd.holds r.samples)
  enter (.convolved samples.size block overlapAdd)
  return { r with samples := samples }

/-- **Filters a reel in its place.** Every signal that plays it back hears the change. -/
def convolve (reel : Nat) (f : Filter α) (overlapAdd : Given Bool) : Session α Unit := do
  match (← get).reels[reel]? with
  | none => return ()
  | some r =>
    let changed ← filtered r f overlapAdd
    modify fun s => { s with reels := s.reels.setIfInBounds reel changed }

/-- A kernel from the bytes of a file, which are named by the path. -/
def kernelOfFile (path : String) (bytes : Except FileFault (List UInt8)) :
    Session α (Kernel α) := do
  match bytes with
  | .error cause => throw (.unreadable path cause)
  | .ok bytes =>
    let k ← kernelOfPcm bytes (some path)
    enter (.kernelLoaded path k.samples.size)
    return k

/-- A kernel read from the file of a path. -/
def kernelFromFile (p : FilePath) : Session α (Kernel α) := do
  kernelOfFile p.shown ((← get).folder.read p)

/-- **The kernel of a file**, read when its location is first asked for and kept on the shelf. -/
def loadKernel (p : FilePath) : Session α (Kernel α) := do
  if p.holdsZero then throw (.unreadable p.shown .zeroInPath)
  let folder := (← get).folder
  let location := folder.resolve p
  match (← get).shelf.lookup location with
  | some k =>
    enter (.kernelKnown (Folder.fullPath location))
    return k
  | none =>
    let k ← kernelOfFile (Folder.fullPath location) (folder.read ⟨"/", location⟩)
    modify fun s => { s with shelf := (location, k) :: s.shelf }
    return k

/-- Takes all kernels off the shelf. -/
def clearShelf : Session α Unit := modify fun s => { s with shelf := [] }

/-- Changes the files. A failure is raised as the fault that is made of its cause. -/
def changeFolder (change : Folder → Except FileFault Folder) (fault : FileFault → Fault α) :
    Session α Unit := do
  match change (← get).folder with
  | .ok folder => modify fun s => { s with folder := folder }
  | .error cause => throw (fault cause)

/-- Writes a file in a folder that is there. -/
def writeFile (p : FilePath) (bytes : List UInt8)
    (fault : FileFault → Fault α := .cannotWrite p.shown) : Session α Unit :=
  changeFolder (·.write p bytes) fault

/-- **Puts a file** where a path leads, making the folders on the way. -/
def putFile (p : FilePath) (bytes : List UInt8) : Session α Unit := do
  changeFolder (·.makeFolders p.parent) (.cannotWrite p.parent.shown)
  writeFile p bytes

end Session

end Polyphony
