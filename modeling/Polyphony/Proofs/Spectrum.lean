import Mathlib.Algebra.BigOperators.Field
import Mathlib.Analysis.SpecialFunctions.Complex.Circle
import Polyphony.Convolution
import Polyphony.Proofs.Exact

/-!
# Products of spectra are circular convolutions

* `sum_cos`: the cosines of all multiples of a step, added up around the turn, cancel unless the step
  is a whole number of turns.
* `sum_symmetric`: a sum around the turn of what is the same at `k` and at `n - k`, from its first
  half. The spectrum keeps only that half.
* `wave_mul`: what a coefficient of a product contributes to a sample, one cosine for each pair of
  samples (`pairSum`); `sum_pairSum`: around the turn only the pairs of one place are left.
* `getD_filtered`: **the filtered block is the circular convolution of segment and kernel**, in exact
  arithmetic, for blocks of any even length.
-/

namespace Polyphony.Spectrum

open Finset Scalar Exact

/-! ### Sums around the turn -/

/-- **Cosines around the turn** add up to zero, except where all of them are one. -/
theorem sum_cos {n : ℕ} (hn : 0 < n) (m : ℤ) :
    ∑ k ∈ range n, Real.cos (2 * Real.pi * k * m / n) = if (n : ℤ) ∣ m then (n : ℝ) else 0 := by
  have hn' : (n : ℂ) ≠ 0 := Nat.cast_ne_zero.2 hn.ne'
  -- the cosines are the real parts of the powers of a root of unity
  set ζ : ℂ := Complex.exp (2 * Real.pi * Complex.I * (m / n)) with hζ
  have hre : ∀ k : ℕ, Real.cos (2 * Real.pi * k * m / n) = (ζ ^ k).re := by
    intro k
    rw [hζ, ← Complex.exp_nat_mul, ← Complex.exp_ofReal_mul_I_re]
    congr 2
    push_cast
    ring
  have hpow : ζ ^ n = 1 := by
    rw [hζ, ← Complex.exp_nat_mul, Complex.exp_eq_one_iff]
    exact ⟨m, by field_simp⟩
  have hone : ζ = 1 ↔ (n : ℤ) ∣ m := by
    rw [hζ, Complex.exp_eq_one_iff]
    constructor
    · rintro ⟨q, hq⟩
      refine ⟨q, ?_⟩
      have h2 : (2 * Real.pi * Complex.I : ℂ) ≠ 0 := Complex.two_pi_I_ne_zero
      have hmq : (m : ℂ) / n = q := by
        apply mul_left_cancel₀ h2; rw [hq]; ring
      rw [div_eq_iff hn'] at hmq
      have : (m : ℂ) = ((n * q : ℤ) : ℂ) := by push_cast; rw [hmq]; ring
      exact_mod_cast this
    · rintro ⟨q, rfl⟩
      exact ⟨q, by push_cast; field_simp⟩
  simp only [hre, ← Complex.re_sum]
  -- a geometric sum whose ratio is not one cancels
  split_ifs with hd
  · simp [hone.2 hd]
  · have hgeom := mul_neg_geom_sum ζ n
    rw [hpow, sub_self] at hgeom
    rcases mul_eq_zero.1 hgeom with h | h
    · exact absurd (hone.1 (by linear_combination -h)) hd
    · rw [h]; rfl

/-- **A symmetric sum around the turn** from its first half. -/
theorem sum_symmetric {h : ℕ} (hh : 0 < h) {g : ℕ → ℝ}
    (hg : ∀ k, k ≤ 2 * h → g (2 * h - k) = g k) :
    ∑ k ∈ range (2 * h), g k = g 0 + g h + ∑ k ∈ range (h - 1), 2 * g (k + 1) := by
  obtain ⟨h, rfl⟩ : ∃ h', h = h' + 1 := ⟨h - 1, by omega⟩
  -- the second half is the first one backwards, without its two ends
  have hback : ∑ k ∈ range h, g (h + 1 + (k + 1)) = ∑ k ∈ range h, g (k + 1) := by
    rw [← sum_range_reflect]
    apply sum_congr rfl
    intro k hk
    have := mem_range.1 hk
    rw [← hg (k + 1) (by omega)]
    congr 1; omega
  rw [two_mul, sum_range_add, sum_range_succ', sum_range_succ', hback, ← mul_sum]
  simp only [add_zero, Nat.add_sub_cancel]
  ring

/-! ### Coefficients -/

variable {n : ℕ}

/-- Whole turns do not count: the table of a circle holds one turn. -/
theorem angle_mod (hn : 0 < n) (k : ℕ) :
    2 * Real.pi * k / n = 2 * Real.pi * (k % n : ℕ) / n + (k / n : ℕ) * (2 * Real.pi) := by
  have hn' : (n : ℝ) ≠ 0 := Nat.cast_ne_zero.2 hn.ne'
  have hk : (k : ℝ) = (k % n : ℕ) + n * (k / n : ℕ) := by exact_mod_cast (Nat.mod_add_div k n).symm
  rw [hk]
  field_simp

theorem cosine_circle (hn : 0 < n) (k : ℕ) :
    (circle n : Circle ℝ).cosine k = Real.cos (2 * Real.pi * k / n) := by
  rw [angle_mod hn, Real.cos_add_nat_mul_two_pi]
  simp [Circle.cosine, circle, angle, Nat.mod_lt k hn]

theorem sine_circle (hn : 0 < n) (k : ℕ) :
    (circle n : Circle ℝ).sine k = Real.sin (2 * Real.pi * k / n) := by
  rw [angle_mod hn, Real.sin_add_nat_mul_two_pi]
  simp [Circle.sine, circle, angle, Nat.mod_lt k hn]

/-- The real part of a Fourier coefficient of a block. -/
noncomputable def cosSum (n : ℕ) (x : Array ℝ) (k : ℕ) : ℝ :=
  ∑ j ∈ range x.size, x.getD j 0 * Real.cos (2 * Real.pi * k * j / n)

/-- Its imaginary part with the sign changed. -/
noncomputable def sinSum (n : ℕ) (x : Array ℝ) (k : ℕ) : ℝ :=
  ∑ j ∈ range x.size, x.getD j 0 * Real.sin (2 * Real.pi * k * j / n)

@[simp] theorem size_forward {α : Type} [Scalar α] (c : Circle α) (x : Array α) :
    (forward c x).size = c.steps / 2 + 1 := by
  simp [forward]

theorem coefficient_forward (hn : 0 < n) (x : Array ℝ) {k : ℕ} (hk : k ≤ n / 2) :
    (forward (circle n) x).coefficient k = ⟨cosSum n x k, -sinSum n x k⟩ := by
  have hk' : k < (circle n : Circle ℝ).steps / 2 + 1 := Nat.lt_succ_of_le hk
  have hturn : ∀ j : ℕ, 2 * Real.pi * (j * k : ℕ) / n = 2 * Real.pi * k * j / n := by
    intro j; push_cast; ring
  simp only [forward, coefficient, sumTo_eq, cosine_circle hn, sine_circle hn, hturn, zero_lit,
    Array.getD_eq_getD_getElem?, Array.getElem?_map, Array.getElem?_range, hk', if_true,
    Option.map_some, Option.getD_some, cosSum, sinSum]

theorem coefficient_mul {s t : Spectrum ℝ} {k : ℕ} (hs : k < s.size) (ht : k < t.size) :
    (s.mul t).coefficient k = (s.coefficient k).mul (t.coefficient k) := by
  simp [mul, coefficient, hs, ht]

/-- What a coefficient contributes to the sample at `j`. -/
noncomputable def wave (n : ℕ) (z : Complex ℝ) (j k : ℕ) : ℝ :=
  z.re * Real.cos (2 * Real.pi * k * j / n) - z.im * Real.sin (2 * Real.pi * k * j / n)

/-- What the pairs of samples of two blocks contribute to the sample at `j`, with one cosine each. -/
noncomputable def pairSum (n : ℕ) (x y : Array ℝ) (j k : ℕ) : ℝ :=
  ∑ p ∈ range x.size, ∑ q ∈ range y.size,
    x.getD p 0 * y.getD q 0 * Real.cos (2 * Real.pi * k * ((j - p - q : ℤ) : ℝ) / n)

/-- **The wave of a product** of two Fourier coefficients has one cosine for each pair of samples. -/
theorem wave_mul (n : ℕ) (x y : Array ℝ) (j k : ℕ) :
    wave n (.mul ⟨cosSum n x k, -sinSum n x k⟩ ⟨cosSum n y k, -sinSum n y k⟩) j k =
      pairSum n x y j k := by
  simp only [wave, pairSum, Complex.mul, cosSum, sinSum, neg_mul, mul_neg, neg_neg, sum_mul_sum]
  simp only [sum_mul, ← sum_sub_distrib, ← sum_add_distrib, ← sum_neg_distrib]
  refine sum_congr rfl fun p _ => sum_congr rfl fun q _ => ?_
  have harg : 2 * Real.pi * k * ((j - p - q : ℤ) : ℝ) / n =
      2 * Real.pi * k * j / n - 2 * Real.pi * k * p / n - 2 * Real.pi * k * q / n := by
    push_cast; ring
  rw [harg, Real.cos_sub, Real.cos_sub, Real.sin_sub]
  ring

/-- The coefficients in the first half of the turn are those that a spectrum holds. -/
theorem wave_product {h : ℕ} (hh : 0 < h) (x y : Array ℝ) (j : ℕ) {k : ℕ} (hk : k ≤ h) :
    wave (2 * h) (((forward (circle (2 * h)) x).mul (forward (circle (2 * h)) y)).coefficient k) j k =
      pairSum (2 * h) x y j k := by
  have hsize : ∀ z : Array ℝ, k < (forward (circle (2 * h)) z).size := by
    intro z; rw [size_forward]; show k < 2 * h / 2 + 1; omega
  rw [coefficient_mul (hsize x) (hsize y), coefficient_forward (by omega) x (by omega),
    coefficient_forward (by omega) y (by omega), wave_mul]

/-- The second half of the turn is the first one backwards. -/
theorem pairSum_sub (hn : 0 < n) (x y : Array ℝ) (j : ℕ) {k : ℕ} (hk : k ≤ n) :
    pairSum n x y j (n - k) = pairSum n x y j k := by
  have hn' : (n : ℝ) ≠ 0 := Nat.cast_ne_zero.2 hn.ne'
  refine sum_congr rfl fun p _ => sum_congr rfl fun q _ => congrArg _ ?_
  rw [← Real.cos_int_mul_two_pi_sub _ (j - p - q), Nat.cast_sub hk]
  congr 1
  field_simp
  ring

/-- **Around the turn only the pairs of one place are left**: the cosines of every other pair
cancel. -/
theorem sum_pairSum (hn : 0 < n) (x y : Array ℝ) {j : ℕ} (hj : j < n) :
    (∑ k ∈ range n, pairSum n x y j k) / n = ∑ p ∈ range x.size, ∑ q ∈ range y.size,
      if (p + q) % n = j then x.getD p 0 * y.getD q 0 else 0 := by
  have hn' : (n : ℝ) ≠ 0 := Nat.cast_ne_zero.2 hn.ne'
  simp only [pairSum]
  rw [sum_comm, sum_div]
  refine sum_congr rfl fun p _ => ?_
  rw [sum_comm, sum_div]
  refine sum_congr rfl fun q _ => ?_
  rw [← mul_sum, sum_cos hn]
  have hdvd : (n : ℤ) ∣ (j - p - q : ℤ) ↔ (p + q) % n = j := by
    rw [sub_sub, ← Nat.cast_add, ← Nat.modEq_iff_dvd, Nat.ModEq, Nat.mod_eq_of_lt hj]
  by_cases hpq : (p + q) % n = j
  · rw [if_pos (hdvd.2 hpq), if_pos hpq]
    field_simp
  · rw [if_neg (mt hdvd.1 hpq), if_neg hpq]
    simp

/-! ### Blocks -/

@[simp] theorem size_inverse {α : Type} [Scalar α] (c : Circle α) (s : Spectrum α) :
    (s.inverse c).size = c.steps := by
  simp [inverse]

theorem wave_zero (n : ℕ) (z : Complex ℝ) (j : ℕ) : wave n z j 0 = z.re := by simp [wave]

/-- The middle coefficient counts only with its real part. -/
theorem wave_half {h : ℕ} (hh : 0 < h) (z : Complex ℝ) (j : ℕ) :
    wave (2 * h) z j h = z.re * Real.cos (2 * Real.pi * h * j / (2 * h : ℕ)) := by
  have hh' : (h : ℝ) ≠ 0 := Nat.cast_ne_zero.2 hh.ne'
  have harg : 2 * Real.pi * h * j / (2 * h : ℕ) = j * Real.pi := by
    push_cast; field_simp
  rw [wave, harg, Real.sin_nat_mul_pi, mul_zero, sub_zero]

/-- **A sample of the block of a spectrum** is made of the waves of its coefficients. -/
theorem getD_inverse {h : ℕ} (hh : 0 < h) (s : Spectrum ℝ) {j : ℕ} (hj : j < 2 * h) :
    (s.inverse (circle (2 * h))).getD j 0 =
      (wave (2 * h) (s.coefficient 0) j 0 + wave (2 * h) (s.coefficient h) j h +
        ∑ k ∈ range (h - 1), 2 * wave (2 * h) (s.coefficient (k + 1)) j (k + 1)) / (2 * h : ℕ) := by
  have hn : 0 < 2 * h := by omega
  have hsteps : (circle (2 * h) : Circle ℝ).steps = 2 * h := rfl
  have hturn : ∀ k : ℕ, 2 * Real.pi * (j * k : ℕ) / (2 * h : ℕ) =
      2 * Real.pi * k * j / (2 * h : ℕ) := by
    intro k; push_cast; ring
  simp only [inverse, pairPart, hsteps, Nat.mul_div_cancel_left h two_pos, sumTo_eq,
    cosine_circle hn, sine_circle hn, hturn, two_lit, ofNat_eq, Array.getD_eq_getD_getElem?,
    Array.getElem?_map, Array.getElem?_range, hj, if_true, Option.map_some, Option.getD_some,
    wave_zero, wave_half hh]
  rfl

/-- **The filtered block is the circular convolution** of the segment and the kernel. -/
theorem getD_filtered {h : ℕ} (hh : 0 < h) (x y : Array ℝ) {j : ℕ} (hj : j < 2 * h) :
    (Convolution.filtered (circle (2 * h)) (forward (circle (2 * h)) y) x).getD j 0 =
      ∑ p ∈ range x.size, ∑ q ∈ range y.size,
        if (p + q) % (2 * h) = j then x.getD p 0 * y.getD q 0 else 0 := by
  have hn : 0 < 2 * h := by omega
  have hrest : ∀ k ∈ range (h - 1), 2 * wave (2 * h) (((forward (circle (2 * h)) x).mul
      (forward (circle (2 * h)) y)).coefficient (k + 1)) j (k + 1) =
        2 * pairSum (2 * h) x y j (k + 1) := by
    intro k hk
    have := mem_range.1 hk
    rw [wave_product hh x y j (by omega)]
  rw [Convolution.filtered, getD_inverse hh _ hj, wave_product hh x y j (Nat.zero_le h),
    wave_product hh x y j le_rfl, sum_congr rfl hrest,
    ← sum_symmetric hh fun k hk => pairSum_sub hn x y j hk, sum_pairSum hn x y hj]

end Polyphony.Spectrum
