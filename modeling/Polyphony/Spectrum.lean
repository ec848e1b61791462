import Polyphony.Scalar

/-!
# Spectra

The spectrum of a block of `n` real samples, `n` even, is the list of its first `n / 2 + 1` Fourier
coefficients; the others are their conjugates. A product of spectra is the spectrum of a circular
convolution.

* `Spectrum.forward`: the spectrum of a block, padded with silence.
* `Spectrum.inverse`: the block of a spectrum. The imaginary parts of the first and of the last
  coefficient, which a real block does not have, are ignored.
-/

namespace Polyphony

open Scalar

variable {α : Type} [Scalar α]

/-- A complex number. -/
structure Complex (α : Type) where
  re : α
  im : α

def Complex.mul (z w : Complex α) : Complex α :=
  ⟨z.re * w.re - z.im * w.im, z.re * w.im + z.im * w.re⟩

/-- The sum of the first `n` terms. -/
def sumTo (n : Nat) (term : Nat → α) : α := n.fold (fun k _ sum => sum + term k) 0.0

/-- The Fourier coefficients of a real block, up to the middle one. -/
abbrev Spectrum (α : Type) := Array (Complex α)

namespace Spectrum

/-- The angle of `k` steps when a full turn has `n`. -/
def angle (n k : Nat) : α := 2.0 * pi * ofNat k / ofNat n

/-- The cosines and sines of all steps of a turn. -/
structure Circle (α : Type) where
  steps : Nat
  cosines : Array α
  sines : Array α

def circle (n : Nat) : Circle α :=
  ⟨n, Array.ofFn fun k : Fin n => cos (angle n k), Array.ofFn fun k : Fin n => sin (angle n k)⟩

/-- The cosine of any number of steps. -/
def Circle.cosine (c : Circle α) (k : Nat) : α := c.cosines.getD (k % c.steps) 0.0

/-- The sine of any number of steps. -/
def Circle.sine (c : Circle α) (k : Nat) : α := c.sines.getD (k % c.steps) 0.0

/-- **The spectrum of a block** of as many samples as the circle has steps. Samples that are missing
are silent. -/
def forward (c : Circle α) (block : Array α) : Spectrum α :=
  (Array.range (c.steps / 2 + 1)).map fun k =>
    ⟨sumTo block.size fun j => block.getD j 0.0 * c.cosine (j * k),
      -(sumTo block.size fun j => block.getD j 0.0 * c.sine (j * k))⟩

/-- The coefficient at a position, zero beyond the last one. -/
def coefficient (s : Spectrum α) (k : Nat) : Complex α := s.getD k ⟨0.0, 0.0⟩

/-- The part that a pair of conjugate coefficients has in the sample at `j`. -/
def pairPart (c : Circle α) (s : Spectrum α) (j k : Nat) : α :=
  2.0 * ((s.coefficient k).re * c.cosine (j * k) - (s.coefficient k).im * c.sine (j * k))

/-- **The block of a spectrum.** -/
def inverse (c : Circle α) (s : Spectrum α) : Array α :=
  let half := c.steps / 2
  (Array.range c.steps).map fun j =>
    let ends := (s.coefficient 0).re + (s.coefficient half).re * c.cosine (j * half)
    (ends + sumTo (half - 1) fun k => pairPart c s j (k + 1)) / ofNat c.steps

/-- The product, coefficient by coefficient. -/
def mul (s t : Spectrum α) : Spectrum α := s.zipWith Complex.mul t

end Spectrum

end Polyphony
