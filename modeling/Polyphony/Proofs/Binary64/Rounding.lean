import Mathlib.Data.Int.Log
import Polyphony.Proofs.Nearest

/-!
# Rounding to doubles

A finite double is an integer of at most 53 binary digits times a power of two that is not less than
`2 ^ (-1074)`. Real numbers are rounded to the nearest of these; that there is a largest one does not
matter here.

* `IsRepresentable`: integers of 53 digits, scaled.
* `lastPlace`, `rounded`: the place of the last digit that is kept, and the rounded number.
* `rounded_le`, `le_rounded`: **rounding does not jump over a representable number**, so it keeps these
  (`rounded_eq_self`) and the sign.
* `abs_sub_rounded_le`, `rounded_eq_of_near`: the rounded number is at most half a place away, and what is
  nearer than that is what one rounds to.
* `abs_sub_rounded_le_abs_sub`: **no representable number is nearer**, so rounding keeps the order
  (`rounded_mono`).
-/

namespace Polyphony.Binary64

open Exact

/-- A number of at most 53 binary digits, none of them behind place `-1074`. -/
def IsRepresentable (x : ℝ) : Prop := ∃ m e : ℤ, |m| ≤ 2 ^ 53 ∧ -1074 ≤ e ∧ x = m * 2 ^ e

/-- **The place of the last digit that is kept**: 52 places behind the first one of the number, or of
the least number that is kept to 53 digits. -/
noncomputable def lastPlace (x : ℝ) : ℤ := Int.log 2 (max |x| (2 ^ (-1022 : ℤ))) - 52

/-- **The number, rounded** to its last place. -/
noncomputable def rounded (x : ℝ) : ℝ := nearest (x / 2 ^ lastPlace x) * 2 ^ lastPlace x

variable {x y f : ℝ} {e : ℤ}

theorem two_zpow_pos (e : ℤ) : (0 : ℝ) < 2 ^ e := zpow_pos two_pos e

theorem two_zpow_add (d e : ℤ) : (2 : ℝ) ^ (d + e) = 2 ^ d * 2 ^ e := zpow_add₀ two_ne_zero d e

theorem two_zpow_add_natCast (e : ℤ) (n : ℕ) : (2 : ℝ) ^ (e + n) = 2 ^ n * 2 ^ e := by
  rw [add_comm, two_zpow_add, zpow_natCast]

theorem two_zpow_le {d e : ℤ} (h : d ≤ e) : (2 : ℝ) ^ d ≤ 2 ^ e := zpow_le_zpow_right₀ one_le_two h

theorem two_zpow_lt {d e : ℤ} (h : d < e) : (2 : ℝ) ^ d < 2 ^ e := zpow_lt_zpow_right₀ one_lt_two h

/-! ### The last place -/

theorem max_pos (x : ℝ) : 0 < max |x| ((2 : ℝ) ^ (-1022 : ℤ)) := lt_max_of_lt_right (two_zpow_pos _)

theorem lastPlace_ge (x : ℝ) : -1074 ≤ lastPlace x := by
  have hlog : (-1022 : ℤ) ≤ Int.log 2 (max |x| ((2 : ℝ) ^ (-1022 : ℤ))) :=
    (Int.zpow_le_iff_le_log one_lt_two (max_pos x)).1 (le_max_right _ _)
  unfold lastPlace
  omega

theorem abs_lt_of_lastPlace (x : ℝ) : |x| < 2 ^ (lastPlace x + 53) := by
  have hlog := Int.lt_zpow_succ_log_self one_lt_two (max |x| ((2 : ℝ) ^ (-1022 : ℤ)))
  have hplace : lastPlace x + 53 = Int.log 2 (max |x| ((2 : ℝ) ^ (-1022 : ℤ))) + 1 := by
    unfold lastPlace
    omega
  rw [hplace]
  exact (le_max_left _ _).trans_lt hlog

theorem le_lastPlace (h : 2 ^ (e + 52) ≤ |x|) : e ≤ lastPlace x := by
  have hlt := (zpow_lt_zpow_iff_right₀ one_lt_two).1 (h.trans_lt (abs_lt_of_lastPlace x))
  omega

/-- The place that is found by the first digit. -/
theorem lastPlace_eq (hhigh : |x| < 2 ^ (e + 53)) (hlow : 2 ^ (e + 52) ≤ |x| ∨ e = -1074)
    (hle : -1074 ≤ e) : lastPlace x = e := by
  have hupper : max |x| ((2 : ℝ) ^ (-1022 : ℤ)) < 2 ^ (e + 53) :=
    max_lt hhigh (two_zpow_lt (by omega))
  have hlower : (2 : ℝ) ^ (e + 52) ≤ max |x| (2 ^ (-1022 : ℤ)) := by
    rcases hlow with hlow | rfl
    · exact le_max_of_le_left hlow
    · exact le_max_of_le_right (two_zpow_le (by omega))
  have hlt := (Int.lt_zpow_iff_log_lt one_lt_two (max_pos x)).1 hupper
  have hge := (Int.zpow_le_iff_le_log one_lt_two (max_pos x)).1 hlower
  unfold lastPlace
  omega

/-- The place, told from the powers of two around the number. -/
theorem lastPlace_of_between (hlow : 2 ^ e ≤ |x|) (hhigh : |x| < 2 ^ (e + 1)) (he : -1022 ≤ e) :
    lastPlace x = e - 52 := by
  refine lastPlace_eq ?_ (.inl ?_) (by omega)
  · rwa [show e - 52 + 53 = e + 1 by omega]
  · rwa [sub_add_cancel]

theorem le_abs_of_lastPlace (h : -1074 < lastPlace x) : 2 ^ (lastPlace x + 52) ≤ |x| := by
  by_contra! hlt
  rcases le_or_gt (2 ^ (-1022 : ℤ)) |x| with hnormal | hsmall
  · have hlog := Int.zpow_log_le_self one_lt_two (max_pos x)
    rw [max_eq_left hnormal] at hlog
    have hplace : lastPlace x + 52 = Int.log 2 |x| := by
      unfold lastPlace
      rw [max_eq_left hnormal]
      omega
    rw [hplace] at hlt
    exact absurd hlog (not_le.2 hlt)
  · have hleast : lastPlace x = -1074 :=
      lastPlace_eq (hsmall.trans (two_zpow_lt (by norm_num))) (.inr rfl) le_rfl
    omega

@[simp] theorem lastPlace_neg (x : ℝ) : lastPlace (-x) = lastPlace x := by
  unfold lastPlace
  rw [abs_neg]

/-! ### Representable numbers -/

theorem IsRepresentable.neg (h : IsRepresentable x) : IsRepresentable (-x) := by
  obtain ⟨m, e, hm, he, rfl⟩ := h
  exact ⟨-m, e, by rwa [abs_neg], he, by push_cast; ring⟩

theorem isRepresentable_intCast {n : ℤ} (h : |n| ≤ 2 ^ 53) : IsRepresentable n :=
  ⟨n, 0, h, by norm_num, by simp⟩

theorem isRepresentable_natCast {n : ℕ} (h : n ≤ 2 ^ 53) : IsRepresentable n :=
  isRepresentable_intCast (n := n) (by rw [abs_of_nonneg (by omega)]; exact_mod_cast h)

theorem isRepresentable_one : IsRepresentable 1 := by
  exact_mod_cast isRepresentable_natCast (n := 1) (by norm_num)

/-- The first digit of a number, with zeros behind it, is a multiple of its last place. -/
theorem firstPlace_eq (x : ℝ) : (2 : ℝ) ^ (lastPlace x + 52) = (2 ^ 52 : ℤ) * 2 ^ lastPlace x := by
  rw [add_comm, two_zpow_add]
  norm_num

/-- **Between a number and a representable one above it lies a multiple of its last place.** -/
theorem exists_multiple (hf : IsRepresentable f) (h : x ≤ f) :
    ∃ k : ℤ, x ≤ k * 2 ^ lastPlace x ∧ k * 2 ^ lastPlace x ≤ f := by
  obtain ⟨m, e, hm, he, rfl⟩ := hf
  rcases le_or_gt (lastPlace x) e with hplace | hplace
  · obtain ⟨n, hn⟩ := Int.eq_ofNat_of_zero_le (sub_nonneg.2 hplace)
    have hmultiple : (m * 2 ^ n : ℤ) * (2 : ℝ) ^ lastPlace x = m * 2 ^ e := by
      rw [show e = n + lastPlace x by omega, two_zpow_add, zpow_natCast]
      push_cast
      ring
    exact ⟨m * 2 ^ n, by rwa [hmultiple], hmultiple.le⟩
  · -- the number above has no more digits than the first place of `x`
    have hfirst : 2 ^ (lastPlace x + 52) ≤ |x| := le_abs_of_lastPlace (he.trans_lt hplace)
    have habove : |(m : ℝ) * 2 ^ e| ≤ 2 ^ (lastPlace x + 52) := by
      have hm' : |(m : ℝ)| ≤ 2 ^ (53 : ℤ) := by exact_mod_cast hm
      rw [abs_mul, abs_of_pos (two_zpow_pos e)]
      calc |(m : ℝ)| * 2 ^ e ≤ 2 ^ (53 : ℤ) * 2 ^ e :=
            mul_le_mul_of_nonneg_right hm' (two_zpow_pos e).le
        _ = 2 ^ (53 + e) := (two_zpow_add _ _).symm
        _ ≤ 2 ^ (lastPlace x + 52) := two_zpow_le (by omega)
    have hplaces := abs_le.1 habove
    rcases le_or_gt 0 x with hx | hx
    · rw [abs_of_nonneg hx] at hfirst
      refine ⟨2 ^ 52, ?_, ?_⟩ <;> rw [← firstPlace_eq] <;> linarith
    · rw [abs_of_neg hx] at hfirst
      have hneg : ((-2 ^ 52 : ℤ) : ℝ) * 2 ^ lastPlace x = -2 ^ (lastPlace x + 52) := by
        rw [firstPlace_eq]
        push_cast
        ring
      refine ⟨-2 ^ 52, ?_, ?_⟩ <;> rw [hneg] <;> linarith

/-- A multiple of a place is one of every place before it. -/
theorem exists_multiple_of_le {d : ℤ} (k : ℤ) (h : d ≤ e) : ∃ n : ℤ, (k : ℝ) * 2 ^ e = n * 2 ^ d := by
  obtain ⟨n, hn⟩ := Int.eq_ofNat_of_zero_le (sub_nonneg.2 h)
  refine ⟨k * 2 ^ n, ?_⟩
  rw [show e = n + d by omega, two_zpow_add, zpow_natCast]
  push_cast
  ring

/-- **A representable number is a multiple of its last place**, and of every place before that. -/
theorem IsRepresentable.exists_eq_mul (hx : IsRepresentable x) (h : 2 ^ (e + 52) ≤ |x|) :
    ∃ k : ℤ, x = k * 2 ^ e := by
  obtain ⟨k, hlow, hhigh⟩ := exists_multiple hx le_rfl
  obtain ⟨n, hn⟩ := exists_multiple_of_le k (le_lastPlace h)
  exact ⟨n, (le_antisymm hlow hhigh).trans hn⟩

/-! ### Rounding -/

@[simp] theorem rounded_zero : rounded 0 = 0 := by
  rw [rounded, zero_div, show nearest 0 = 0 by exact_mod_cast nearest_intCast 0, Int.cast_zero, zero_mul]

@[simp] theorem rounded_neg (x : ℝ) : rounded (-x) = -rounded x := by
  unfold rounded
  rw [lastPlace_neg, neg_div, nearest_neg]
  push_cast
  ring

/-- **Rounding does not jump over a representable number** above. -/
theorem rounded_le (hf : IsRepresentable f) (h : x ≤ f) : rounded x ≤ f := by
  obtain ⟨k, hxk, hkf⟩ := exists_multiple hf h
  have hk : nearest (x / 2 ^ lastPlace x) ≤ k := nearest_le ((div_le_iff₀ (two_zpow_pos _)).2 hxk)
  have hk' : (nearest (x / 2 ^ lastPlace x) : ℝ) ≤ k := by exact_mod_cast hk
  exact (mul_le_mul_of_nonneg_right hk' (two_zpow_pos _).le).trans hkf

theorem le_rounded (hf : IsRepresentable f) (h : f ≤ x) : f ≤ rounded x := by
  have hneg := rounded_le hf.neg (neg_le_neg h)
  rw [rounded_neg] at hneg
  exact neg_le_neg_iff.1 hneg

/-- **Rounding keeps representable numbers.** -/
theorem rounded_eq_self (h : IsRepresentable x) : rounded x = x :=
  le_antisymm (rounded_le h le_rfl) (le_rounded h le_rfl)

theorem abs_rounded_le (hf : IsRepresentable f) (h : |x| ≤ f) : |rounded x| ≤ f := by
  obtain ⟨hlow, hhigh⟩ := abs_le.1 h
  exact abs_le.2 ⟨le_rounded hf.neg hlow, rounded_le hf hhigh⟩

/-- The rounded number is a multiple of the last place of at most 53 digits. -/
theorem abs_nearest_le (x : ℝ) : |nearest (x / 2 ^ lastPlace x)| ≤ 2 ^ 53 := by
  have habs : |x / 2 ^ lastPlace x| ≤ (2 ^ 53 : ℤ) := by
    rw [abs_div, abs_of_pos (two_zpow_pos _), div_le_iff₀ (two_zpow_pos _)]
    have hlt := abs_lt_of_lastPlace x
    rw [add_comm, two_zpow_add] at hlt
    exact_mod_cast hlt.le
  obtain ⟨hlow, hhigh⟩ := abs_le.1 habs
  rw [← Int.cast_neg] at hlow
  exact abs_le.2 ⟨le_nearest hlow, nearest_le hhigh⟩

theorem isRepresentable_rounded (x : ℝ) : IsRepresentable (rounded x) :=
  ⟨_, _, abs_nearest_le x, lastPlace_ge x, rfl⟩

/-- The distance from a multiple of a place, counted in places. -/
theorem abs_sub_mul_place (x : ℝ) (k e : ℤ) : |x - k * 2 ^ e| = |x / 2 ^ e - k| * 2 ^ e := by
  have hplaces : x - k * 2 ^ e = (x / 2 ^ e - k) * 2 ^ e := by
    rw [sub_mul, div_mul_cancel₀ _ (two_zpow_pos _).ne']
  rw [hplaces, abs_mul, abs_of_pos (two_zpow_pos e)]

/-- **The rounded number is at most half a place away.** -/
theorem abs_sub_rounded_le (x : ℝ) : |x - rounded x| ≤ 2 ^ lastPlace x / 2 := by
  have hnear := abs_sub_nearest_le (x / 2 ^ lastPlace x)
  rw [rounded, abs_sub_mul_place]
  calc _ ≤ 1 / 2 * 2 ^ lastPlace x := mul_le_mul_of_nonneg_right hnear (two_zpow_pos _).le
    _ = 2 ^ lastPlace x / 2 := by ring

/-- **The error, told from the size of the number.** -/
theorem abs_sub_rounded_le_mul (x : ℝ) :
    |x - rounded x| ≤ max (|x| * 2 ^ (-53 : ℤ)) (2 ^ (-1075 : ℤ)) := by
  refine (abs_sub_rounded_le x).trans ?_
  rcases (lastPlace_ge x).eq_or_lt with heq | hlt
  · refine le_max_of_le_right ?_
    rw [← heq, div_le_iff₀ two_pos, ← zpow_add_one₀ two_ne_zero]
    norm_num
  · refine le_max_of_le_left ?_
    have hfirst := le_abs_of_lastPlace hlt
    rw [two_zpow_add] at hfirst
    have hsplit : (2 : ℝ) ^ lastPlace x / 2 = 2 ^ lastPlace x * 2 ^ (52 : ℤ) * 2 ^ (-53 : ℤ) := by
      norm_num
      ring
    rw [hsplit]
    exact mul_le_mul_of_nonneg_right hfirst (two_zpow_pos _).le

/-- **No representable number is nearer.** -/
theorem abs_sub_rounded_le_abs_sub (hf : IsRepresentable f) : |x - rounded x| ≤ |x - f| := by
  -- a multiple of the last place lies between
  obtain ⟨k, hk⟩ : ∃ k : ℤ, |x - k * 2 ^ lastPlace x| ≤ |x - f| := by
    rcases le_total x f with hle | hle
    · obtain ⟨k, hlow, hhigh⟩ := exists_multiple hf hle
      refine ⟨k, ?_⟩
      rw [abs_of_nonpos (sub_nonpos.2 hlow), abs_of_nonpos (sub_nonpos.2 hle)]
      linarith
    · obtain ⟨k, hlow, hhigh⟩ := exists_multiple hf.neg (neg_le_neg hle)
      rw [lastPlace_neg] at hlow hhigh
      refine ⟨-k, ?_⟩
      push_cast
      rw [abs_of_nonneg (by linarith), abs_of_nonneg (sub_nonneg.2 hle)]
      linarith
  refine le_trans ?_ hk
  rw [rounded, abs_sub_mul_place, abs_sub_mul_place]
  exact mul_le_mul_of_nonneg_right (abs_sub_nearest_le_abs_sub _ k) (two_zpow_pos _).le

/-- **Rounding keeps the order.** -/
theorem rounded_mono : Monotone rounded := by
  intro x y hxy
  by_contra! hlt
  have hx : rounded y < x := by
    by_contra! hle
    exact absurd (rounded_le (isRepresentable_rounded y) hle) (not_le.2 hlt)
  have hy : y < rounded x := by
    by_contra! hle
    exact absurd (le_rounded (isRepresentable_rounded x) hle) (not_le.2 hlt)
  -- each of the two is no farther from its own rounded number than from that of the other
  have hnearx : |x - rounded x| ≤ |x - rounded y| := abs_sub_rounded_le_abs_sub (isRepresentable_rounded y)
  have hneary : |y - rounded y| ≤ |y - rounded x| := abs_sub_rounded_le_abs_sub (isRepresentable_rounded x)
  rw [abs_of_neg (by linarith), abs_of_pos (by linarith)] at hnearx
  rw [abs_of_pos (by linarith), abs_of_neg (by linarith)] at hneary
  obtain rfl : x = y := by linarith
  exact lt_irrefl _ hlt

theorem rounded_nonneg (h : 0 ≤ x) : 0 ≤ rounded x := by
  rw [← rounded_zero]
  exact rounded_mono h

/-- **What is nearer than half a place is what one rounds to.** -/
theorem rounded_eq_of_near {k : ℤ} (hplace : lastPlace x = e) (h : |x - k * 2 ^ e| < 2 ^ e / 2) :
    rounded x = k * 2 ^ e := by
  rw [abs_sub_mul_place] at h
  have hscaled : |x / 2 ^ e - k| < 1 / 2 := lt_of_mul_lt_mul_right (by linarith) (two_zpow_pos e).le
  rw [rounded, hplace, nearest_eq_of_lt hscaled]

/-- **Of two that are equally near, the even one.** -/
theorem rounded_eq_of_even {k : ℤ} (hplace : lastPlace x = e) (h : |x - k * 2 ^ e| ≤ 2 ^ e / 2)
    (hk : Even k) : rounded x = k * 2 ^ e := by
  rw [abs_sub_mul_place] at h
  have hscaled : |x / 2 ^ e - k| ≤ 1 / 2 := le_of_mul_le_mul_right (by linarith) (two_zpow_pos e)
  rw [rounded, hplace, nearest_eq hscaled fun _ => hk]

/-- The same for an integer. -/
theorem rounded_eq_natCast_of_near {w n : ℕ} (hplace : lastPlace x = -n)
    (h : |x - w| < 2 ^ (-n : ℤ) / 2) : rounded x = w := by
  have hword : ((w * 2 ^ n : ℤ) : ℝ) * 2 ^ (-n : ℤ) = w := by
    push_cast
    rw [mul_assoc, zpow_neg, zpow_natCast, mul_inv_cancel₀ (pow_ne_zero n two_ne_zero), mul_one]
  have hnear := rounded_eq_of_near hplace (k := w * 2 ^ n) (by rwa [hword])
  rwa [hword] at hnear

end Polyphony.Binary64
