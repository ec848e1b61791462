import Polyphony.Proofs.Binary64.Fraction

/-!
# Counts, divided and multiplied back

A count that is divided by a rate and multiplied by it again does not always come back. It comes back nearly,
and a billionth makes up for what is missing, as long as the count is not too large.

* `back`: a count, divided and multiplied back.
* `abs_back_sub_le`: **what comes back is near.**
* `floor_back`: so its floor is the count, or one less if it falls short.
* `le_rounded_back_add`: up to `2 ^ 24` **a billionth makes up for what is missing.**
-/

namespace Polyphony.Binary64

variable {ρ x : ℝ} {i : ℕ} {a : Float}

/-- **A count, divided by a rate and multiplied back**, each time rounded. -/
noncomputable def back (ρ : ℝ) (i : ℕ) : ℝ := rounded (rounded (i / ρ) * ρ)

/-- A count and a fraction of few digits. -/
theorem isRepresentable_add_div {k : ℤ} {d : ℕ} (h : |(i : ℤ) * 2 ^ d + k| ≤ 2 ^ 53) (hd : d ≤ 1074) :
    IsRepresentable (i + k / 2 ^ d) := by
  have hdigits := isRepresentable_div h hd
  push_cast at hdigits
  rwa [add_div, mul_div_cancel_right₀ _ (by positivity)] at hdigits

/-! ### Errors -/

/-- **The error of a quotient, multiplied back.** -/
theorem abs_rounded_div_mul_sub_le (hρ : 0 < ρ) (hlimit : ρ < 2 ^ (1024 : ℤ)) (i : ℕ) :
    |rounded (i / ρ) * ρ - i| ≤ max ((i : ℝ) / 2 ^ 53) (1 / 2 ^ 51) := by
  have herror : |rounded (i / ρ) * ρ - i| = |(i : ℝ) / ρ - rounded (i / ρ)| * ρ := by
    have hback : rounded (i / ρ) * ρ - i = -(((i : ℝ) / ρ - rounded (i / ρ)) * ρ) := by
      rw [sub_mul, div_mul_cancel₀ _ hρ.ne']
      ring
    rw [hback, abs_neg, abs_mul, abs_of_pos hρ]
  have hround := abs_sub_rounded_le_mul ((i : ℝ) / ρ)
  rw [abs_of_nonneg (by positivity : 0 ≤ (i : ℝ) / ρ)] at hround
  rw [herror]
  rcases le_max_iff.1 hround with hrelative | htiny
  · refine le_max_of_le_left ?_
    calc |(i : ℝ) / ρ - rounded (i / ρ)| * ρ ≤ (i : ℝ) / ρ * 2 ^ (-53 : ℤ) * ρ :=
          mul_le_mul_of_nonneg_right hrelative hρ.le
      _ = i / 2 ^ 53 := by
          rw [mul_right_comm, div_mul_cancel₀ _ hρ.ne', zpow_neg, ← div_eq_mul_inv]
          rfl
  · refine le_max_of_le_right ?_
    calc |(i : ℝ) / ρ - rounded (i / ρ)| * ρ ≤ 2 ^ (-1075 : ℤ) * 2 ^ (1024 : ℤ) :=
          mul_le_mul htiny hlimit.le hρ.le (two_zpow_pos _).le
      _ = 1 / 2 ^ 51 := by
          rw [← two_zpow_add]
          norm_num

theorem back_nonneg (hρ : 0 < ρ) (i : ℕ) : 0 ≤ back ρ i := by
  have hquotient : 0 ≤ rounded (i / ρ) := rounded_nonneg (by positivity)
  exact rounded_nonneg (mul_nonneg hquotient hρ.le)

theorem abs_rounded_div_mul_sub_le_eighth (hρ : 0 < ρ) (hlimit : ρ < 2 ^ (1024 : ℤ)) (hi : i < 2 ^ 50) :
    |rounded (i / ρ) * ρ - i| ≤ 1 / 8 := by
  have hi' : (i : ℝ) < 2 ^ 50 := by exact_mod_cast hi
  refine (abs_rounded_div_mul_sub_le hρ hlimit i).trans (max_le ?_ (by norm_num))
  rw [div_le_iff₀ (by positivity)]
  linarith

/-- **What comes back is near**, for fewer than `2 ^ 50`. -/
theorem abs_back_sub_le (hρ : 0 < ρ) (hlimit : ρ < 2 ^ (1024 : ℤ)) (hi : i < 2 ^ 50) :
    |back ρ i - i| ≤ 1 / 8 := by
  obtain ⟨hlow, hhigh⟩ := abs_le.1 (abs_rounded_div_mul_sub_le_eighth hρ hlimit hi)
  have hbelow : IsRepresentable (i + (-1 : ℤ) / 2 ^ 3) :=
    isRepresentable_add_div (by rw [abs_le]; omega) (by norm_num)
  have habove : IsRepresentable (i + (1 : ℤ) / 2 ^ 3) :=
    isRepresentable_add_div (by rw [abs_le]; omega) (by norm_num)
  have hge := le_rounded hbelow (x := rounded (i / ρ) * ρ) (by push_cast; linarith)
  have hle := rounded_le habove (x := rounded (i / ρ) * ρ) (by push_cast; linarith)
  push_cast at hge hle
  unfold back
  rw [abs_le]
  constructor <;> linarith

/-- The floor of what is near to a count. -/
theorem floor_of_near (hlow : (i : ℝ) - 1 ≤ x) (hhigh : x < i + 1) :
    ⌊x⌋ = if x < i then (i : ℤ) - 1 else i := by
  split_ifs with hlt
  · rw [Int.floor_eq_iff]
    push_cast
    exact ⟨hlow, by linarith⟩
  · rw [Int.floor_eq_iff]
    push_cast
    exact ⟨not_lt.1 hlt, hhigh⟩

/-- The natural number below what is near to a count, told by whether it falls short. -/
theorem natCast_ite_sub_one {p : Prop} [Decidable p] (hshort : p ↔ x < i) (hnonneg : 0 ≤ x)
    (hfloor : ⌊x⌋ = if x < i then (i : ℤ) - 1 else i) : ((if p then i - 1 else i : ℕ) : ℤ) = ⌊x⌋ := by
  have hfloor' : 0 ≤ ⌊x⌋ := Int.floor_nonneg.2 hnonneg
  by_cases hlt : x < i
  · -- nothing falls short of zero, so that there is a count before this one
    rw [if_pos hlt] at hfloor
    rw [if_pos (hshort.2 hlt)]
    omega
  · rw [if_neg hlt] at hfloor
    rw [if_neg (mt hshort.1 hlt), hfloor]

theorem floor_back (hρ : 0 < ρ) (hlimit : ρ < 2 ^ (1024 : ℤ)) (hi : i < 2 ^ 50) :
    ⌊back ρ i⌋ = if back ρ i < i then (i : ℤ) - 1 else i := by
  obtain ⟨hlow, hhigh⟩ := abs_le.1 (abs_back_sub_le hρ hlimit hi)
  exact floor_of_near (by linarith) (by linarith)

/-! ### A billionth -/

/-- What the literal of a billionth stands for. -/
theorem exists_denotes_billionth : ∃ e : ℝ, Denotes 1e-9 e ∧ 1 / 2 ^ 30 ≤ e ∧ e ≤ 1 / 8 := by
  refine ⟨_, denotes_literal (m := 4835703278458517) (e := -82) (by norm_num) rfl rfl, ?_, ?_⟩ <;> norm_num

/-- With a little added, the floor of what comes back is no more than the count. -/
theorem floor_rounded_back_add (hρ : 0 < ρ) (hlimit : ρ < 2 ^ (1024 : ℤ)) (hi : i < 2 ^ 50) {e : ℝ}
    (hlow : 0 ≤ e) (hhigh : e ≤ 1 / 8) :
    ⌊rounded (back ρ i + e)⌋ = if rounded (back ρ i + e) < i then (i : ℤ) - 1 else i := by
  obtain ⟨hback, hback'⟩ := abs_le.1 (abs_back_sub_le hρ hlimit hi)
  have hbelow : IsRepresentable ((i - 1 : ℤ) : ℝ) := isRepresentable_intCast (by rw [abs_le]; omega)
  have habove : IsRepresentable (i + (1 : ℤ) / 2 ^ 2) :=
    isRepresentable_add_div (by rw [abs_le]; omega) (by norm_num)
  have hge := le_rounded hbelow (x := back ρ i + e) (by push_cast; linarith)
  have hle := rounded_le habove (x := back ρ i + e) (by push_cast; linarith)
  push_cast at hge hle
  exact floor_of_near hge (by linarith)

/-- What comes back, from below: at most so much is missing. -/
theorem le_back (hρ : 0 < ρ) (hlimit : ρ < 2 ^ (1024 : ℤ)) {d : ℕ} (hd : d ≤ 51) (hi : i * 2 ^ d ≤ 2 ^ 53) :
    (i : ℝ) - 1 / 2 ^ d ≤ back ρ i := by
  have hmissing : max ((i : ℝ) / 2 ^ 53) (1 / 2 ^ 51) ≤ 1 / 2 ^ d := by
    refine max_le ?_ ?_
    · rw [div_le_div_iff₀ (by positivity) (by positivity), one_mul]
      exact_mod_cast hi
    · exact one_div_le_one_div_of_le (by positivity) (pow_le_pow_right₀ one_le_two hd)
  have hnear := (abs_le.1 (abs_rounded_div_mul_sub_le hρ hlimit i)).1
  have hbelow : IsRepresentable (i + (-1 : ℤ) / 2 ^ d) := by
    refine isRepresentable_add_div ?_ (by omega)
    have hpower : (2 : ℤ) ^ d ≤ 2 ^ 51 := pow_le_pow_right₀ (by norm_num) hd
    have hcount : (i : ℤ) * 2 ^ d ≤ 2 ^ 53 := by exact_mod_cast hi
    have hnonneg : 0 ≤ (i : ℤ) * 2 ^ d := by positivity
    rw [abs_le]
    omega
  push_cast at hbelow
  have hge := le_rounded hbelow (x := rounded (i / ρ) * ρ) (by linarith [neg_div ((2 : ℝ) ^ d) 1])
  unfold back
  linarith [neg_div ((2 : ℝ) ^ d) 1]

/-- A count that is short of half of its last place is rounded up. -/
theorem rounded_sub_half_place (hlow : 2 ^ 23 < i) (hhigh : i ≤ 2 ^ 24) : rounded (i - 1 / 2 ^ 30) = i := by
  have hlow' : (2 : ℝ) ^ 23 + 1 ≤ i := by exact_mod_cast hlow
  have hhigh' : (i : ℝ) ≤ 2 ^ 24 := by exact_mod_cast hhigh
  have hplace : lastPlace (i - 1 / 2 ^ 30) = -29 := by
    refine lastPlace_of_between (e := 23) ?_ ?_ (by norm_num) <;> rw [abs_of_pos (by norm_num; linarith)] <;>
      norm_num <;> linarith
  have hcount : ((i * 2 ^ 29 : ℤ) : ℝ) * 2 ^ (-29 : ℤ) = i := by
    push_cast
    rw [mul_assoc]
    norm_num
  have heven := rounded_eq_of_even hplace (k := i * 2 ^ 29) (by rw [hcount]; norm_num)
    (Even.mul_left (by decide) _)
  rwa [hcount] at heven

/-- **Up to `2 ^ 24` a billionth makes up for what is missing**: up to `2 ^ 23` even without rounding. -/
theorem le_rounded_back_add (hρ : 0 < ρ) (hlimit : ρ < 2 ^ (1024 : ℤ)) {e : ℝ} (he : 1 / 2 ^ 30 ≤ e)
    (hi : i ≤ 2 ^ 24) : (i : ℝ) ≤ rounded (back ρ i + e) := by
  rcases le_or_gt i (2 ^ 23) with hsmall | hlarge
  · have hback := le_back hρ hlimit (d := 30) (i := i) (by norm_num) (by omega)
    exact le_rounded (isRepresentable_natCast (by omega)) (by linarith)
  · have hback := le_back hρ hlimit (d := 29) (i := i) (by norm_num) (by omega)
    rw [← rounded_sub_half_place hlarge hi]
    refine rounded_mono ?_
    norm_num at hback he ⊢
    linarith

end Polyphony.Binary64
