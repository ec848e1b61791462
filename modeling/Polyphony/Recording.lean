import Polyphony.Room
import Polyphony.Run
import Polyphony.Signal.Describe

/-!
# Recording

A signal is recorded by sampling it at equal distances, chunk by chunk; the chunks can be shared
out among workers. A signal can also be streamed in blocks, for a time or without an end. Sample
`i` is always the value at time `i / rate`.

* `Reel.ofSamples`: a reel of given samples.
* `Signal.record`: a recorded signal.
* `Signal.stream`: the first blocks of a stream.
-/

namespace Polyphony

open Scalar

variable {α : Type} [Scalar α]

namespace Rate

/-- Whether a rate is above zero, or undefined. -/
def isPositive : Rate α → Bool
  | whole hertz => 0 < hertz
  | exact hertz => !le hertz 0.0

def toScalar? : Rate α → Except NumberFault α
  | whole hertz => ofInt? hertz
  | exact hertz => .ok hertz

end Rate

/-- A reel of samples at a scalar rate, which a fault names as it was given. -/
def Reel.atRate (samples : Array α) (given : Rate α) (rate : α) :
    Except (Fault α) (Reel α) :=
  if h : le rate 0.0 = false then .ok ⟨samples, rate, h⟩ else .error (.rateNotPositive given)

/-- **A reel of samples.** The rate has to be positive. -/
def Reel.ofSamples (samples : Array α) (rate : Rate α) : Except (Fault α) (Reel α) :=
  if rate.isPositive then do
    let hertz ← rate.toScalar?.mapError .number
    Reel.atRate samples rate hertz
  else .error (.rateNotPositive rate)

/-- How a recording is cut into chunks, and how many workers share them. -/
structure RecordingPlan where
  chunkSize : Given Int
  workers : Given Int

namespace RecordingPlan

def standardChunk : Int := 65536

/-- One worker, and chunks of 65536 samples. -/
def standard : RecordingPlan := ⟨standardChunk, .nothing⟩

end RecordingPlan

namespace Recording

/-- The values at `size` instants from the instant `first` on. -/
def instants (reels : Reels α) (s : Signal α) (hertz : α) (first size : Nat) : Array α :=
  (Array.range size).map fun j => s.sample reels (ofNat (first + j) / hertz)

/-- The chunks of `count` instants: the first instant and the size of each. -/
def chunks (count size : Nat) : List (Nat × Nat) :=
  (List.range ((count + size - 1) / size)).map fun k => (k * size, min size (count - k * size))

/-- Jobs done by several workers: each takes every `workers`-th job, and the results are put back
into the order of the jobs. -/
def shareOut {β γ : Type} (workers : Nat) (jobs : List β) (work : β → γ) : List γ :=
  let lanes := (List.range workers).map fun lane =>
    ((jobs.zipIdx.filter fun (_, k) => k % workers == lane).map fun (job, _) => work job).toArray
  (List.range jobs.length).filterMap fun k =>
    (lanes[k % workers]?).bind fun lane => lane[k / workers]?

/-- The workers that are set to work on some jobs, none meaning that there is nobody to share with.
No more are set to work than there are jobs. -/
def staff (workers : Given Int) (jobs : Nat) : Except (Fault α) (Option Nat) :=
  match workers with
  | .nothing => .ok none
  | .emptyList => if jobs = 0 then .ok none else .error (.unfit .emptyList (.leftOf ">" "int"))
  | .value w => .ok (if 1 < w ∧ 1 < jobs then some (min w.toNat jobs) else none)

/-- The samples of chunks, done by some workers. -/
def renderChunks (reels : Reels α) (s : Signal α) (hertz : α) (staff : Option Nat)
    (chunks : List (Nat × Nat)) : List (Array α) :=
  let work := fun (chunk : Nat × Nat) => instants reels s hertz chunk.1 chunk.2
  match staff with
  | some workers => shareOut workers chunks work
  | none => chunks.map work

end Recording

/-- **Records a signal** for a number of seconds, given some memory. -/
def Signal.record (reels : Reels α) (s : Signal α) (rate : Rate α) (seconds : Given α)
    (plan : RecordingPlan) (memory : Nat) : Run α (Reel α) := do
  if !rate.isPositive then throw (.rateNotPositive rate)
  let seconds ← Run.ofExcept (seconds.get (.leftOf "<" "int"))
  if lt seconds 0.0 then throw (.negativeDuration seconds)
  let chunkSize ← Run.ofExcept (plan.chunkSize.get (.leftOf "<=" "int"))
  if chunkSize ≤ 0 then throw (.chunkNotPositive chunkSize)
  let hertz ← Run.ofExcept (rate.toScalar?.mapError .number)
  let count ← Run.ofExcept ((toInt? (seconds * hertz)).mapError .number)
  Run.ofExcept ((Room.forSamples memory count.toNat).mapError .noArray)
  let chunks := Recording.chunks count.toNat chunkSize.toNat
  Run.enter (.recording s.title count.toNat rate chunks.length)
  let staff ← Run.ofExcept (Recording.staff plan.workers chunks.length)
  let samples := (Recording.renderChunks reels s hertz staff chunks).foldl (· ++ ·) #[]
  Run.ofExcept (Reel.atRate samples rate hertz)

namespace Stream

/-- The size of blocks unless another is asked for. -/
def standardBlock : Int := 4096

/-- The size of the block at an instant: the rest, if that is less than a block. -/
def blockAt (total : Option Int) (size start : Nat) : Nat :=
  match total with
  | none => size
  | some total => min size (total - start).toNat

/-- The first blocks from an instant on, at most `limit` of them. -/
def blocksFrom (reels : Reels α) (s : Signal α) (hertz : α) (memory : Nat) (total : Option Int)
    (size : Nat) : Nat → Nat → Except (Fault α) (List (Array α))
  | 0, _ => .ok []
  | limit + 1, start =>
    let count := blockAt total size start
    if count = 0 then .ok []
    else do
      (Room.forSamples memory count).mapError .noArray
      let block := Recording.instants reels s hertz start count
      return block :: (← blocksFrom reels s hertz memory total size limit (start + count))

end Stream

/-- **The first blocks of a stream**, at most `limit` of them, given some memory. Without a duration
the stream has no end. Nothing is checked before the first block is asked for. -/
def Signal.stream (reels : Reels α) (s : Signal α) (rate : Rate α) (seconds : Option α)
    (blockSize : Given Int) (limit : Nat) (memory : Nat := Room.standard) :
    Except (Fault α) (List (Array α)) := do
  if limit = 0 then return []
  let blockSize ← blockSize.get (.leftOf "<=" "int")
  if blockSize ≤ 0 then throw (.blockNotPositive blockSize)
  let hertz ← rate.toScalar?.mapError .number
  let total ← match seconds with
    | none => pure none
    | some seconds => some <$> (toInt? (seconds * hertz)).mapError .number
  Stream.blocksFrom reels s hertz memory total blockSize.toNat limit 0

end Polyphony
