import Polyphony.Proofs.Convolution
import Polyphony.Proofs.Studio

/-!
# Filtering a reel in a studio

* `convolve_of_filtered`: a reel that has been filtered is put in its place. No other reel changes, and none
  at all if the filter fails.
* `apply_overlapAdd`: a filter whose spectrum is the right one gives the linear convolution.
* `convolve_overlapAdd`: so does every studio that can be reached, whatever it has stored before, unless
  it has no room for the spectrum; `convolve_exact_of_room`: given room, it always does.
-/

namespace Polyphony

open Polyphony.Convolution

/-- **What an exact convolution leaves** of a buffer: one sample for every place that a product of
samples can have, with the sum of the products there. Silence has no samples and gets none. -/
structure Convolution.IsExact (x y z : Array ℝ) : Prop where
  empty : x.size = 0 → z = #[]
  size : 0 < x.size → z.size = x.size + y.size - 1
  value : ∀ k, z.getD k 0 = linear x y k

theorem size_spectrumAt {α : Type} [Scalar α] (k : Kernel α) (block : ℕ) :
    (k.spectrumAt block).size = block / 2 + 1 := by
  simp [Kernel.spectrumAt, Spectrum.forward, Spectrum.circle]

theorem isExact_overlapAdd (x : Array ℝ) (k : Kernel ℝ) :
    IsExact x k.samples (overlapAdd (k.spectrumAt k.blockSize) k.blockSize k.samples.size x) where
  empty := by
    intro hx
    obtain rfl : x = #[] := Array.eq_empty_of_size_eq_zero hx
    rfl
  size := by
    intro hx
    exact size_overlapAdd hx k.nonempty (by rw [Kernel.blockSize]; omega) _
  value := by
    intro place
    rcases Nat.eq_zero_or_pos x.size with hx | hx
    · obtain rfl : x = #[] := Array.eq_empty_of_size_eq_zero hx
      simp [overlapAdd, linear]
    · exact getD_overlapAdd hx k.nonempty (by omega) place

/-- The default block of a kernel, filtered. -/
theorem apply_overlapAdd (k : Kernel ℝ) (x : Array ℝ) : ∃ y,
    (Filter.kernel k).apply (k.spectrumAt k.blockSize) true x = .ok (y, k.blockSize) ∧
      IsExact x k.samples y := by
  have hpos := k.nonempty
  have hblock : 2 * ((k.spectrumAt k.blockSize).size - 1) = k.blockSize := by
    rw [size_spectrumAt, Kernel.blockSize]
    omega
  have hlong : ¬ k.blockSize < 2 := by rw [Kernel.blockSize]; omega
  refine ⟨_, ?_, isExact_overlapAdd x k⟩
  rw [Filter.apply, hblock]
  simp [hlong]

namespace Session

/-! ### A reel is filtered -/

section

variable {α : Type} [Scalar α] {s : Studio α} {f : Filter α} {r r' : Reel α} {overlapAdd : Given Bool}
  {reel : ℕ}

/-- Filtering a reel sets none. -/
theorem reels_filtered (r : Reel α) (f : Filter α) (overlapAdd : Given Bool) (s : Studio α) :
    (filtered r f overlapAdd s).2.reels = s.reels := by
  have hfilter : Keeps (fun s' => s'.reels = s.reels) (filterSpectrum f) := by
    cases f with
    | kernel k =>
      exact (keeps_spectrum (fun _ h => h) (fun _ _ _ h => h) none).bind fun _ => keeps_pure _
    | bare bins => exact keeps_pure _
  exact (hfilter.bind fun _ => (keeps_ofExcept _).bind fun _ => (keeps_enter _).bind fun _ =>
    keeps_pure _) s rfl

/-- A reel that has been filtered is put in its place. -/
theorem convolve_of_filtered (hr : s.reels[reel]? = some r)
    (h : (filtered r f overlapAdd s).1.result = .ok r') :
    (convolve reel f overlapAdd s).1.result = .ok () ∧
      (convolve reel f overlapAdd s).2.reels = s.reels.setIfInBounds reel r' := by
  rw [convolve, get_bind]
  simp only [hr]
  rw [bind_ok h, ← reels_filtered r f overlapAdd s]
  exact ⟨rfl, rfl⟩

/-- **A filter that fails leaves all reels alone.** -/
theorem convolve_of_filtered_error (hr : s.reels[reel]? = some r) {fault : Fault α}
    (h : (filtered r f overlapAdd s).1.result = .error fault) :
    (convolve reel f overlapAdd s).1.result = .error fault ∧
      (convolve reel f overlapAdd s).2.reels = s.reels := by
  rw [convolve, get_bind]
  simp only [hr]
  rw [bind_error h]
  exact ⟨rfl, reels_filtered r f overlapAdd s⟩

end

/-! ### Overlapping blocks -/

variable {s : Studio ℝ} {k : Kernel ℝ} {r : Reel ℝ}

/-- **A kernel whose spectrum is the right one filters exactly**, whether the spectrum was there before
or not. -/
theorem convolve_of_spectrum {reel : ℕ} (hr : s.reels[reel]? = some r) {known : StoredSpectrum ℝ}
    (hknown : (spectrum k none s).1.result = .ok known)
    (hspectrum : known.spectrum = k.spectrumAt k.blockSize) :
    ∃ y, IsExact r.samples k.samples y ∧
      (convolve reel (.kernel k) (.value true) s).1.result = .ok () ∧
      (convolve reel (.kernel k) (.value true) s).2.reels =
        s.reels.setIfInBounds reel { r with samples := y } := by
  obtain ⟨y, hy, hexact⟩ := apply_overlapAdd k r.samples
  have hbins : (filterSpectrum (.kernel k) s).1.result = .ok (k.spectrumAt k.blockSize) := by
    rw [filterSpectrum, bind_ok hknown, hspectrum]
    rfl
  have hfiltered : (filtered r (.kernel k) (.value true) s).1.result = .ok { r with samples := y } := by
    rw [filtered, bind_ok hbins, show (Given.value true).holds = true from rfl, hy, ofExcept_ok_bind]
    rfl
  exact ⟨y, hexact, convolve_of_filtered hr hfiltered⟩

/-- **Overlapping blocks filter exactly**, in every studio that can be reached and with every kernel
that has been made: the reel becomes its linear convolution with the kernel, and the other reels
stay. Only if the spectrum is yet to be computed and the studio has no room for it is the filter
refused, and then no reel changes. -/
theorem convolve_overlapAdd {made : List (Kernel ℝ)} (hs : Studio.Reached made s) (hk : k ∈ made)
    {reel : ℕ} (hr : s.reels[reel]? = some r) :
    (∃ y, IsExact r.samples k.samples y ∧
      (convolve reel (.kernel k) (.value true) s).1.result = .ok () ∧
      (convolve reel (.kernel k) (.value true) s).2.reels =
        s.reels.setIfInBounds reel { r with samples := y }) ∨
    ∃ fault, Room.forBins s.memory (k.samples.size + 1) = .error fault ∧
      (convolve reel (.kernel k) (.value true) s).1.result = .error (.noArray fault) ∧
      (convolve reel (.kernel k) (.value true) s).2.reels = s.reels := by
  obtain ⟨known, hknown, hspectrum⟩ | ⟨fault, hroom, hfault⟩ := spectrum_result hs.sound hk
  · exact .inl (convolve_of_spectrum hr hknown hspectrum)
  · -- there is no room, and the reel has not been touched yet
    have hfiltered : (filtered r (.kernel k) (.value true) s).1.result = .error (.noArray fault) := by
      rw [filtered, filterSpectrum, bind_assoc, bind_error hfault]
    exact .inr ⟨fault, hroom, convolve_of_filtered_error hr hfiltered⟩

/-- A reel of two samples and a kernel of three, in a memory of 64 bytes. -/
theorem convolve_overlapAdd_short_reel :
    ∃ (k : Kernel ℝ) (r : Reel ℝ) (s : Studio ℝ) (y : Array ℝ),
      k.samples = #[1, 1, 1] ∧ r.samples = #[1, 2] ∧ Studio.Reached [k] s ∧
      s.reels[0]? = some r ∧ (convolve 0 (.kernel k) (.value true) s).1.result = .ok () ∧
      (convolve 0 (.kernel k) (.value true) s).2.reels = #[{ r with samples := y }] ∧
      y.size = 4 ∧ y.getD 1 0 = 3 := by
  let k : Kernel ℝ := ⟨0, #[1, 1, 1], none, by simp⟩
  let r : Reel ℝ := ⟨#[1, 2], 2, by simp [Scalar.le]⟩
  let s₀ : Studio ℝ := Studio.empty (.empty []) 64
  let s : Studio ℝ := { (kernel k.samples none s₀).2 with reels := #[r] }
  have hmade : (kernel k.samples none s₀).1.result = .ok k := by
    simp [kernel, fresh_bind, Kernel.ofSamples, ofExcept, ofRun, Run.ofExcept, Run.keepEntries, k,
      s₀, Studio.empty]
  have hs : Studio.Reached [k] s :=
    .quiet (.make (.opened _ _) (makes_kernel _ _) hmade) ⟨rfl, fun _ h => h, Nat.le_refl _, rfl⟩
  obtain ⟨y, hy, hresult, hreels⟩ | ⟨fault, hroom, -⟩ :=
    convolve_overlapAdd hs List.mem_cons_self (show s.reels[0]? = some r from rfl)
  · refine ⟨k, r, s, y, rfl, rfl, hs, rfl, hresult, hreels, hy.size (by simp [r]), ?_⟩
    rw [hy.value]
    simp [linear, r, k, Finset.sum_range_succ]
    norm_num
  · have hfits : Room.forBins s.memory (k.samples.size + 1) = .ok () := by decide
    rw [hfits] at hroom
    cases hroom

/-- **Given room for the spectrum, the result is the exact one**, and nothing else can happen. -/
theorem convolve_exact_of_room {made : List (Kernel ℝ)} (hs : Studio.Reached made s) (hk : k ∈ made)
    {reel : ℕ} (hr : s.reels[reel]? = some r)
    (hroom : Room.forBins s.memory (k.samples.size + 1) = .ok ()) :
    ∃ y, IsExact r.samples k.samples y ∧
      (convolve reel (.kernel k) (.value true) s).1.result = .ok () ∧
      (convolve reel (.kernel k) (.value true) s).2.reels =
        s.reels.setIfInBounds reel { r with samples := y } := by
  obtain ⟨known, hknown, hspectrum⟩ | ⟨fault, hfull, -⟩ := spectrum_result hs.sound hk
  · exact convolve_of_spectrum hr hknown hspectrum
  · rw [hroom] at hfull
    cases hfull

end Session

end Polyphony
