import Polyphony.Convolution
import Polyphony.Sound.Pcm
import Polyphony.Text.Quoted

/-!
# Kernels

A kernel is the impulse response of a filter: at least one sample, an optional name, and an
identity, since two kernels with equal samples are still two.

* `Kernel`: the kernels.
* `Kernel.spectrumAt`: the spectrum of a kernel for blocks of a size.
* `Filter`: a kernel, or a spectrum without one.
-/

namespace Polyphony

variable {α : Type} [Scalar α]

/-- **Kernels.** -/
structure Kernel (α : Type) where
  id : Nat
  samples : Array α
  name : Option String
  nonempty : 0 < samples.size

namespace Kernel

/-- The kernel of some samples. -/
def ofSamples (id : Nat) (samples : Array α) (name : Option String) :
    Except (Fault α) (Kernel α) :=
  if h : 0 < samples.size then .ok ⟨id, samples, name, h⟩ else .error .emptyKernel

/-- The kernel of sixteen-bit samples. -/
def ofPcm (id : Nat) (bytes : List UInt8) (name : Option String) : Except (Fault α) (Kernel α) := do
  ofSamples id (← Pcm.decode? bytes).toArray name

/-- The size of blocks unless another is asked for. -/
def blockSize (k : Kernel α) : Nat := 2 * k.samples.size

/-- One line on the kernel. An empty name is not told. -/
def describe (k : Kernel α) : String :=
  let label :=
    match k.name with
    | none | some "" => ""
    | some name => ", name=" ++ Text.quote name
  "FilterKernel(length=" ++ toString k.samples.size ++ label ++ ")"

/-- A block size that suits the kernel: even, and not less than its length. -/
def fitBlock (k : Kernel α) (size : Int) : Except (Fault α) Nat :=
  if size < k.samples.size ∨ size % 2 ≠ 0 then .error (.unfitBlock k.samples.size size)
  else .ok size.toNat

/-- **The spectrum of the kernel** in a block of a size. -/
def spectrumAt (k : Kernel α) (block : Nat) : Spectrum α :=
  Spectrum.forward (Spectrum.circle block) k.samples

end Kernel

/-- What a buffer can be filtered with. -/
inductive Filter (α : Type) where
  | kernel (kernel : Kernel α)
  /-- A spectrum of a kernel that is not known itself. -/
  | bare (spectrum : Spectrum α)

/-- **A buffer, filtered** by a filter whose spectrum is given: the samples, and the block size. A
spectrum of fewer than two coefficients has no block. -/
def Filter.apply (f : Filter α) (spectrum : Spectrum α) (overlapAdd : Bool) (samples : Array α) :
    Except (Fault α) (Array α × Nat) :=
  let block := 2 * (spectrum.size - 1)
  if block < 2 then .error (.shortSpectrum spectrum.size)
  else if overlapAdd then
    match f with
    | .kernel k => .ok (Convolution.overlapAdd spectrum block k.samples.size samples, block)
    | .bare _ => .error .bareSpectrum
  else .ok (Convolution.independent spectrum block samples, block)

end Polyphony
