import Polyphony.Proofs.Exact

/-!
# Rounding to integers

Rounding in exact arithmetic: to the nearest integer, a half going to the even neighbour, and toward zero.

* `nearest`: the nearest integer.
* `abs_sub_nearest_le`, `abs_sub_nearest_le_abs_sub`, `even_nearest`: what is nearest, and which of two
  that are equally near.
* `towardZero`: the integer part.
* `abs_towardZero`: what is left of a size.
* `nearest_mono`, `nearest_neg`, `towardZero_mono`, `towardZero_neg`: rounding keeps the order, and does not
  see the sign.
-/

namespace Polyphony.Exact

/-- **The integer nearest to a number**, a half going to the even neighbour. -/
noncomputable def nearest (x : ℝ) : ℤ :=
  if Int.fract x < 1 / 2 then ⌊x⌋
  else if 1 / 2 < Int.fract x then ⌊x⌋ + 1
  else if Even ⌊x⌋ then ⌊x⌋
  else ⌊x⌋ + 1

variable {x y : ℝ} {n : ℤ}

theorem floor_le_nearest (x : ℝ) : ⌊x⌋ ≤ nearest x := by
  unfold nearest
  split_ifs <;> omega

theorem nearest_le_floor_add_one (x : ℝ) : nearest x ≤ ⌊x⌋ + 1 := by
  unfold nearest
  split_ifs <;> omega

/-- **The nearest integer is at most a half away.** -/
theorem abs_sub_nearest_le (x : ℝ) : |x - nearest x| ≤ 1 / 2 := by
  have hx := Int.floor_add_fract x
  have hlow := Int.fract_nonneg x
  have hhigh := Int.fract_lt_one x
  rw [abs_le]
  unfold nearest
  split_ifs <;> push_cast <;> constructor <;> linarith

/-- **Of two integers that are equally near, the even one.** -/
theorem even_nearest (h : |x - nearest x| = 1 / 2) : Even (nearest x) := by
  have hx := Int.floor_add_fract x
  unfold nearest at h ⊢
  split_ifs at h ⊢ with h1 h2 h3
  · have habs : |x - ⌊x⌋| = Int.fract x := abs_of_nonneg (Int.fract_nonneg x)
    linarith
  · have hhigh := Int.fract_lt_one x
    have habs : |x - (⌊x⌋ + 1 : ℤ)| = 1 - Int.fract x := by
      rw [abs_of_neg (by push_cast; linarith)]
      push_cast
      linarith
    linarith
  · exact h3
  · exact (Int.not_even_iff_odd.1 h3).add_one

/-- **Nothing else is nearest**: an integer a half away has to be even. -/
theorem nearest_eq (h : |x - n| ≤ 1 / 2) (heven : |x - n| = 1 / 2 → Even n) : nearest x = n := by
  have hnear := abs_sub_nearest_le x
  have htriangle : |(nearest x : ℝ) - n| ≤ |x - nearest x| + |x - n| := by
    rw [abs_sub_comm x (nearest x)]
    exact abs_sub_le _ _ _
  by_contra hne
  have hapart : 1 ≤ |nearest x - n| := Int.one_le_abs (sub_ne_zero.2 hne)
  have hapart' : (1 : ℝ) ≤ |(nearest x : ℝ) - n| := by exact_mod_cast hapart
  -- both are a half away, so they are neighbours, and both are even
  have hclose : |nearest x - n| ≤ 1 := by
    have : |(nearest x : ℝ) - n| ≤ 1 := by linarith
    exact_mod_cast this
  obtain ⟨k, hk⟩ := even_nearest (show |x - nearest x| = 1 / 2 by linarith)
  obtain ⟨l, hl⟩ := heven (by linarith)
  rw [hk, hl, abs_le] at hclose
  rw [hk, hl] at hne
  omega

/-- What is nearer than a half is nearest. -/
theorem nearest_eq_of_lt (h : |x - n| < 1 / 2) : nearest x = n :=
  nearest_eq h.le fun heq => absurd heq h.ne

@[simp] theorem nearest_intCast (n : ℤ) : nearest n = n :=
  nearest_eq_of_lt (by norm_num)

/-- **No other integer is nearer.** -/
theorem abs_sub_nearest_le_abs_sub (x : ℝ) (n : ℤ) : |x - nearest x| ≤ |x - n| := by
  by_cases hn : n = nearest x
  · rw [hn]
  · have hapart : (1 : ℝ) ≤ |(nearest x : ℝ) - n| := by
      exact_mod_cast Int.one_le_abs (sub_ne_zero.2 (Ne.symm hn))
    have hnear := abs_sub_nearest_le x
    have htriangle : |(nearest x : ℝ) - n| ≤ |x - nearest x| + |x - n| := by
      rw [abs_sub_comm x (nearest x)]
      exact abs_sub_le _ _ _
    linarith

/-- **Rounding keeps the order.** -/
theorem nearest_mono : Monotone nearest := by
  intro x y hxy
  rcases (Int.floor_mono hxy).eq_or_lt with hfloor | hfloor
  · have hfract : Int.fract x ≤ Int.fract y := by
      unfold Int.fract
      rw [hfloor]
      linarith
    unfold nearest
    rw [hfloor]
    split_ifs <;> first | omega | (exfalso; linarith)
  · exact (nearest_le_floor_add_one x).trans ((Int.add_one_le_iff.2 hfloor).trans (floor_le_nearest y))

theorem nearest_le (h : x ≤ n) : nearest x ≤ n := by
  have hle := nearest_mono h
  rwa [nearest_intCast] at hle

theorem le_nearest (h : (n : ℝ) ≤ x) : n ≤ nearest x := by
  have hle := nearest_mono h
  rwa [nearest_intCast] at hle

/-- **Rounding does not see the sign.** -/
theorem nearest_neg (x : ℝ) : nearest (-x) = -nearest x := by
  have habs : |-x - (-nearest x : ℤ)| = |x - nearest x| := by
    rw [Int.cast_neg, ← neg_sub', abs_neg]
  refine nearest_eq ?_ fun h => ?_
  · rw [habs]
    exact abs_sub_nearest_le x
  · rw [habs] at h
    exact (even_nearest h).neg

/-! ### Toward zero -/

/-- **The integer part of a number.** -/
noncomputable def towardZero (x : ℝ) : ℤ := if 0 ≤ x then ⌊x⌋ else ⌈x⌉

@[simp] theorem towardZero_intCast (n : ℤ) : towardZero n = n := by
  unfold towardZero
  split_ifs
  · exact Int.floor_intCast n
  · exact Int.ceil_intCast n

theorem towardZero_neg (x : ℝ) : towardZero (-x) = -towardZero x := by
  unfold towardZero
  rcases lt_trichotomy x 0 with h | rfl | h
  · rw [if_pos (by linarith), if_neg (by linarith), Int.floor_neg]
  · simp
  · rw [if_neg (by linarith), if_pos h.le, Int.ceil_neg]

theorem towardZero_mono : Monotone towardZero := by
  intro x y hxy
  unfold towardZero
  split_ifs with hx hy hy
  · exact Int.floor_mono hxy
  · exact absurd (hx.trans hxy) hy
  · exact (Int.ceil_le.2 (by exact_mod_cast (not_le.1 hx).le)).trans (Int.floor_nonneg.2 hy)
  · exact Int.ceil_mono hxy

/-- **Of a size, its floor is left.** -/
theorem abs_towardZero (x : ℝ) : |towardZero x| = ⌊|x|⌋ := by
  have hnonneg {x : ℝ} (hx : 0 ≤ x) : |towardZero x| = ⌊|x|⌋ := by
    rw [towardZero, if_pos hx, abs_of_nonneg hx, abs_of_nonneg (Int.floor_nonneg.2 hx)]
  rcases le_total 0 x with hx | hx
  · exact hnonneg hx
  · rw [← abs_neg, ← towardZero_neg, hnonneg (neg_nonneg.2 hx), abs_neg]

/-- What is lost is less than one. -/
theorem abs_sub_towardZero_lt (x : ℝ) : |x - towardZero x| < 1 := by
  rw [abs_lt]
  unfold towardZero
  split_ifs
  · exact ⟨by linarith [Int.floor_le x], by linarith [Int.lt_floor_add_one x]⟩
  · exact ⟨by linarith [Int.ceil_lt_add_one x], by linarith [Int.le_ceil x]⟩

end Polyphony.Exact
