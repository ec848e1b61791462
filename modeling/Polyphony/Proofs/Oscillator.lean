import Polyphony.Proofs.Binary64.Fraction
import Polyphony.Proofs.Signal.Wiring

/-!
# The range of the oscillators, on doubles

The oscillators play the fraction of a product, and the distance of the product from the nearest integer.
Both are rounded.

* `Ugen.sawtooth_denotes`, `Ugen.square_eq`, `Ugen.triangle_denotes`: what is computed.
* `Signal.oscillators_range`: **the oscillators stay in their range**, but for products just below zero and
  for large odd ones.
* `Signal.oscillators_leave_range`: there they do not.
-/

namespace Polyphony

open Binary64 Wiring

variable {x : ℝ} {a : Float}

/-! ### Arithmetic -/

namespace Binary64

theorem abs_rounded_two_mul_lt (h : |x| ≤ 2) : |rounded (2 * x)| < 2 ^ (1024 : ℤ) := by
  refine abs_rounded_lt (m := 4) (by norm_num) ?_
  rw [abs_mul, abs_two, Nat.cast_ofNat]
  linarith

/-- Doubling needs no rounding. -/
theorem Denotes.two_mul (ha : Denotes a x) (h : |x| ≤ 2) : Denotes (2.0 * a) (2 * x) := by
  have hproduct := denotes_two.mul ha (abs_rounded_two_mul_lt h)
  rwa [rounded_eq_self ha.isRepresentable.two_mul] at hproduct

theorem Denotes.mul_two (ha : Denotes a x) (h : |x| ≤ 2) : Denotes (a * 2.0) (2 * x) := by
  have hproduct := ha.mul denotes_two (by rw [mul_comm]; exact abs_rounded_two_mul_lt h)
  rwa [mul_comm x, rounded_eq_self ha.isRepresentable.two_mul] at hproduct

theorem Denotes.sub_one (ha : Denotes a x) (hlow : 0 ≤ x) (hhigh : x ≤ 4) :
    Denotes (a - 1.0) (rounded (x - 1)) := by
  refine ha.sub denotes_one (abs_rounded_lt (m := 3) (by norm_num) ?_)
  rw [abs_le]
  push_cast
  constructor <;> linarith

theorem isRepresentable_three : IsRepresentable 3 := by
  exact_mod_cast isRepresentable_natCast (n := 3) (by norm_num)

end Binary64

namespace Ugen

variable {f t : Float} {reels : Reels Float} {inputs : Fin 0 → Float → Float}

/-! ### Sawtooth and square -/

/-- **The sawtooth** plays the rounded fraction, stretched. -/
theorem sawtooth_denotes (hx : Denotes (t * f) x) :
    Denotes ((sawtooth f).sample reels inputs t) (rounded (2 * rounded (Int.fract x) - 1)) := by
  have hlow := rounded_fract_nonneg x
  have hhigh := rounded_fract_le_one x
  have hsize : |rounded (Int.fract x)| ≤ 2 := by
    rw [abs_of_nonneg hlow]
    linarith
  exact (hx.sub_floor.mul_two hsize).sub_one (by linarith) (by linarith)

/-- **The sawtooth stays in its range**, with its end for products just below zero only. -/
theorem sawtooth_range (hx : IsRepresentable x) :
    -1 ≤ rounded (2 * rounded (Int.fract x) - 1) ∧ rounded (2 * rounded (Int.fract x) - 1) ≤ 1 ∧
      (rounded (2 * rounded (Int.fract x) - 1) = 1 ↔ IsJustBelowZero x) := by
  have hlow := rounded_fract_nonneg x
  have hhigh := rounded_fract_le_one x
  refine ⟨le_rounded isRepresentable_one.neg (by linarith), rounded_le isRepresentable_one (by linarith), ?_⟩
  rw [← rounded_fract_eq_one_iff hx]
  constructor
  · intro hone
    by_contra hne
    -- the last double before one is two steps away from it after the stretching
    have hlt := (isRepresentable_rounded _).le_of_lt_one (hhigh.lt_of_ne hne)
    have hend : rounded (2 * rounded (Int.fract x) - 1) ≤ 1 - 1 / 2 ^ 53 := by
      refine rounded_le isRepresentable_before_one ?_
      linarith
    rw [hone] at hend
    norm_num at hend
  · intro hone
    rw [hone]
    norm_num [rounded_eq_self isRepresentable_one]

/-- **The square** that is always high is low just below zero. -/
theorem square_eq (hx : Denotes (t * f) x) :
    (IsJustBelowZero x → (square f 1.0).sample reels inputs t = -1.0) ∧
      (¬ IsJustBelowZero x → (square f 1.0).sample reels inputs t = 1.0) := by
  have hcompare : Scalar.lt (fraction (t * f)) 1.0 = true ↔ ¬ IsJustBelowZero x := by
    have hlt := hx.sub_floor.lt_iff denotes_one
    rw [← rounded_fract_eq_one_iff hx.isRepresentable, ← ne_eq, ← (rounded_fract_le_one x).lt_iff_ne, ← hlt]
    exact decide_eq_true_iff
  have hsample : (square f 1.0).sample reels inputs t =
      if Scalar.lt (fraction (t * f)) 1.0 then 1.0 else -1.0 := rfl
  rw [hsample]
  constructor
  · intro hbelow
    rw [if_neg (by rw [hcompare, not_not]; exact hbelow)]
  · intro hnot
    rw [if_pos (hcompare.2 hnot)]

/-! ### Triangle -/

/-- **The triangle** plays the rounded distance from the nearest integer, stretched. -/
theorem triangle_denotes (hx : Denotes (t * f) x) :
    Denotes ((triangle f).sample reels inputs t) (rounded (2 * |2 * offset x| - 1)) := by
  have hsize := abs_offset_le_one hx.isRepresentable
  have habs : |2 * offset x| ≤ 2 := by
    rw [abs_mul, abs_two]
    linarith
  have hnonneg := abs_nonneg (2 * offset x)
  have hstretched := (hx.sub_floor_add_half.two_mul (by linarith)).abs.two_mul (by rwa [abs_abs])
  exact hstretched.sub_one (by linarith) (by linarith)

/-- **The triangle stays in its range**, but for large odd products. -/
theorem triangle_range (hx : IsRepresentable x) :
    -1 ≤ rounded (2 * |2 * offset x| - 1) ∧
      (IsLargeOdd x → rounded (2 * |2 * offset x| - 1) = 3) ∧
      (¬ IsLargeOdd x → rounded (2 * |2 * offset x| - 1) ≤ 1) := by
  refine ⟨le_rounded isRepresentable_one.neg ?_, fun hodd => ?_, fun hodd => ?_⟩
  · linarith [abs_nonneg (2 * offset x)]
  · rw [offset_of_odd hx hodd]
    norm_num [rounded_eq_self isRepresentable_three]
  · have hhalf := abs_offset_le hx hodd
    refine rounded_le isRepresentable_one ?_
    rw [abs_mul, abs_two]
    linarith

end Ugen

namespace Signal

/-- **The oscillators stay in their range.** If the product of time and frequency is finite, it stands for a
number. The sawtooth is never below -1 and never above 1; it is 1 for numbers just below zero and for no
others. The triangle is never below -1, and never above 1 but for large odd numbers, where it is 3. The
square whose whole period is high is low just below zero, and high everywhere else. -/
theorem oscillators_range (f t : Float) (h : (t * f).isFinite = true) (reels : Reels Float) :
    ∃ x, Denotes (t * f) x ∧
      (Yields reels (sawtooth f) fun s => ∀ later, ∃ y, Denotes (s.sample later t) y ∧
        -1 ≤ y ∧ y ≤ 1 ∧ (y = 1 ↔ IsJustBelowZero x)) ∧
      (Yields reels (triangle f) fun s => ∀ later, ∃ y, Denotes (s.sample later t) y ∧
        -1 ≤ y ∧ (IsLargeOdd x → y = 3) ∧ (¬ IsLargeOdd x → y ≤ 1)) ∧
      (Yields reels (square f 1.0) fun s => ∀ later,
        (IsJustBelowZero x → s.sample later t = -1.0) ∧ (¬ IsJustBelowZero x → s.sample later t = 1.0)) := by
  obtain ⟨x, hx⟩ := exists_denotes h
  have hwidth : square f 1.0 = source (.square f 1.0) := by
    unfold square
    rw [if_pos (by decide +kernel)]
  refine ⟨x, hx, ?_, ?_, ?_⟩
  · exact yields_place fun id later => ⟨_, Ugen.sawtooth_denotes hx, Ugen.sawtooth_range hx.isRepresentable⟩
  · exact yields_place fun id later => ⟨_, Ugen.triangle_denotes hx, Ugen.triangle_range hx.isRepresentable⟩
  · rw [hwidth]
    exact yields_place fun id later => Ugen.square_eq hx

/-- A sawtooth at 440 Hz after a millisecond. -/
theorem oscillators_range_millisecond : (0.001 * 440.0 : Float).isFinite = true ∧
    Yields #[] (sawtooth 440.0) fun s => ∃ y, Denotes (s.sample #[] 0.001) y ∧ -1 ≤ y ∧ y ≤ 1 := by
  have hfinite : (0.001 * 440.0 : Float).isFinite = true := by decide +kernel
  obtain ⟨x, -, hsawtooth, -, -⟩ := oscillators_range 440.0 0.001 hfinite #[]
  refine ⟨hfinite, hsawtooth.mono fun s hs => ?_⟩
  obtain ⟨y, hy, hlow, hhigh, -⟩ := hs #[]
  exact ⟨y, hy, hlow, hhigh⟩

/-- **They do not stay in the range that is written for them**: just below zero the sawtooth reaches 1, and
the square whose whole period is high is low; at the first odd number above `2 ^ 52` the triangle is 3. -/
theorem oscillators_leave_range :
    (¬ ∀ f t : Float, f.isFinite = true → t.isFinite = true → (t * f).isFinite = true →
      Yields #[] (sawtooth f) fun s => -1.0 ≤ s.sample #[] t ∧ s.sample #[] t < 1.0) ∧
    (¬ ∀ f t : Float, f.isFinite = true → t.isFinite = true → (t * f).isFinite = true →
      Yields #[] (triangle f) fun s => -1.0 ≤ s.sample #[] t ∧ s.sample #[] t ≤ 1.0) ∧
    (¬ ∀ f t : Float, f.isFinite = true → t.isFinite = true → (t * f).isFinite = true →
      Yields #[] (square f 1.0) fun s => s.sample #[] t = 1.0) := by
  refine ⟨fun hall => ?_, fun hall => ?_, fun hall => ?_⟩
  · obtain ⟨s, next, hs, -, hlt⟩ := hall 1.0 (-1e-20) rfl rfl (by decide +kernel) 0
    cases hs
    exact absurd hlt (by decide +kernel)
  · obtain ⟨s, next, hs, -, hle⟩ := hall 1.0 4503599627370497.0 rfl rfl (by decide +kernel) 0
    cases hs
    exact absurd hle (by decide +kernel)
  · obtain ⟨s, next, hs, hone⟩ := hall 1.0 (-1e-20) rfl rfl (by decide +kernel) 0
    cases hs
    exact absurd (congrArg (fun y : Float => decide (y < 0.0)) hone) (by decide +kernel)

end Signal

end Polyphony
