import Polyphony.Fault

/-!
# Room for arrays

An array has fewer than `2 ^ 63` items and fewer than `2 ^ 63` bytes, and its bytes have to fit into
the memory, whose size is a parameter. What does not fit is refused before any item is computed.

Every array is weighed by itself. It is weighed where a number says how long it becomes, a duration or
the size of a block; what is put together from arrays that are there already is not weighed.

* `Room.forSamples`, `Room.forBins`: whether an array of so many samples or coefficients fits.
-/

namespace Polyphony.Room

/-- The memory, in bytes, unless another one is given. -/
def standard : Nat := Nat.pow 2 33

/-- The least number of items, and of bytes, that no array has. -/
def limit : Nat := Nat.pow 2 63

/-- Whether an array fits into the memory, given the fault of having too many items. -/
def forItems (memory : Nat) (tooMany : SizeFault) (itemBytes : Nat) (itemType : String) (count : Nat) :
    Except SizeFault Unit :=
  if limit ≤ count then .error tooMany
  else if limit ≤ itemBytes * count then .error .tooBig
  else if memory < itemBytes * count then .error (.noRoom count itemBytes itemType)
  else .ok ()

/-- **Whether so many samples fit.** -/
def forSamples (memory : Nat) : Nat → Except SizeFault Unit := forItems memory .uncountable 8 "float64"

/-- **Whether so many coefficients fit.** -/
def forBins (memory : Nat) : Nat → Except SizeFault Unit :=
  forItems memory .uncountableBins 16 "complex128"

variable {memory m n : Nat}

/-- Where more fits, less fits too. -/
theorem forSamples_of_le (hle : m ≤ n) (hn : forSamples memory n = .ok ()) :
    forSamples memory m = .ok () := by
  unfold forSamples forItems at hn ⊢
  split at hn; · cases hn
  split at hn; · cases hn
  split at hn; · cases hn
  rw [if_neg (by omega), if_neg (by omega), if_neg (by omega)]

/-- No samples fit into any memory. -/
theorem forSamples_zero : forSamples memory 0 = .ok () := rfl

/-- Too many samples fit into no memory. -/
theorem forSamples_of_limit_le (hn : limit ≤ n) : forSamples memory n = .error .uncountable :=
  if_pos hn

/-- Too many coefficients fit into no memory. -/
theorem forBins_of_limit_le (hn : limit ≤ n) : forBins memory n = .error .uncountableBins :=
  if_pos hn

end Polyphony.Room
