import Polyphony.Spectrum

/-!
# Convolution by blocks

A buffer is filtered block by block: it is cut into segments, each segment is transformed,
multiplied by the spectrum of the kernel and transformed back. Independent blocks let the tail of
the kernel wrap around inside each block. Segments that leave room for the tail, with the
overlapping ends added, give the linear convolution.

* `Convolution.independent`: independent blocks.
* `Convolution.overlapAdd`: overlapping blocks.
-/

namespace Polyphony.Convolution

variable {α : Type} [Scalar α]

/-- The number of segments of a length that hold all samples. -/
def segmentCount (size length : Nat) : Nat := (size + length - 1) / length

/-- The segment with a number, padded with silence. -/
def segment (samples : Array α) (length k : Nat) : Array α :=
  (Array.range length).map fun j => samples.getD (k * length + j) 0.0

/-- The segments of a buffer. -/
def segments (samples : Array α) (length : Nat) : List (Array α) :=
  (List.range (segmentCount samples.size length)).map (segment samples length)

/-- A segment, filtered as one block. -/
def filtered (c : Spectrum.Circle α) (kernel : Spectrum α) (segment : Array α) : Array α :=
  ((Spectrum.forward c segment).mul kernel).inverse c

/-- **Independent blocks**: the buffer is padded to a whole number of blocks, and nothing is carried
from one to the next. -/
def independent (kernel : Spectrum α) (block : Nat) (samples : Array α) : Array α :=
  let c := Spectrum.circle block
  ((segments samples block).map (filtered c kernel)).foldl (· ++ ·) #[]

/-- Adds a segment to a buffer from a position on. -/
def addAt (out : Array α) (position : Nat) (segment : Array α) : Array α :=
  out.mapIdx fun k x =>
    if position ≤ k ∧ k < position + segment.size then x + segment.getD (k - position) 0.0 else x

/-- Adds segments to a buffer, each `hop` samples after the one before. -/
def addAll (hop : Nat) : Nat → List (Array α) → Array α → Array α
  | _, [], out => out
  | position, s :: rest, out => addAll hop (position + hop) rest (addAt out position s)

/-- **Overlapping blocks**: segments are shorter than the block by the tail of the kernel, so that
none of it wraps around. A buffer without samples stays without. -/
def overlapAdd (kernel : Spectrum α) (block kernelSize : Nat) (samples : Array α) : Array α :=
  if samples.isEmpty then #[]
  else
    let c := Spectrum.circle block
    let tail := kernelSize - 1
    let hop := block - tail
    let padded := segmentCount samples.size hop * hop
    let silence := Array.replicate (padded + tail) (0.0 : α)
    let out := addAll hop 0 ((segments samples hop).map (filtered c kernel)) silence
    out.take (samples.size + tail)

end Polyphony.Convolution
